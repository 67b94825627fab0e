import FlagDelivery.Item.Basic
import FlagDelivery.Json.Text
import FlagDelivery.Store.Error

/-!
# The stored form of items

A shared store holds texts. `Stored.ofItem` gives an item's text, with the item's version written into an
object so that the text alone tells it; a tombstone is stored as a placeholder. `Stored.ofText` recovers
version and deletion from a text, and `Stored.toItem` the item.
-/

namespace FlagDelivery

/-- An item as it is handed to a shared store. A tombstone of this process has no text of its own. -/
structure Stored where
  version : Int
  deleted : Bool
  text : Option String
  deriving DecidableEq, Inhabited

namespace Stored

/-- A content with the version written into it, if it is an object. -/
def withVersion (version : Int) : Json → Json
  | .obj fs => .obj (Fields.set "version" (.int version) fs)
  | v => v

/-- The stored form of an item. -/
def ofItem (i : Item) : Stored :=
  match i.content with
  | some content => ⟨i.version, false, some (withVersion i.version content).text⟩
  | none => ⟨i.version, true, none⟩

/-- The object that stands for a deleted item. -/
def placeholder (key : String) (version : Int) : Json :=
  .obj [("deleted", .bool true), ("key", .str key), ("version", .int version)]

/-- The text to store under a key. -/
def textFor (s : Stored) (key : String) : String :=
  match s.text with
  | some text => if s.deleted then (placeholder key s.version).text else text
  | none => (placeholder key s.version).text

/-- The content says that the item is deleted. -/
def saysDeleted (content : Json) : Bool := (content.field? "deleted").bind Json.bool? = some true

/-- The version that a stored text tells, and whether it is one of a deleted item. -/
def versionOf (text : String) : Except StoreError (Int × Bool) :=
  match Json.parse? text with
  | none => .error .unreadable
  | some content =>
    match (content.field? "version").bind Json.version? with
    | none => .error (.noVersion text)
    | some version => .ok (version, saysDeleted content)

/-- A text read back from a store. -/
def ofText (text : String) : Except StoreError Stored := do
  let (version, deleted) ← versionOf text
  return ⟨version, deleted, some text⟩

/-- The item of a stored form. A text that says so is one of a tombstone. -/
def toItem (s : Stored) : Except StoreError Item :=
  match s.text with
  | none => .ok (.tombstone s.version)
  | some text =>
    if s.deleted then .ok (.tombstone s.version)
    else match Json.parse? text with
      | none => .error .unreadable
      | some content => .ok (if saysDeleted content then .tombstone s.version else ⟨s.version, some content⟩)

end Stored

end FlagDelivery
