import FlagDelivery.Proofs.Event.Decoding
import FlagDelivery.Proofs.Item.Grouping
import FlagDelivery.Proofs.Item.Stored
import FlagDelivery.Proofs.Json.Parsed
import FlagDelivery.Proofs.Transfer.Deliveries

/-!
# The items of a batch

The items of a batch are those of the changes that it was made from. Where the changes came in messages whose bodies
were read from texts, the items are such that their own texts are read again, `Batch.writable_of_delivered`.
-/

namespace FlagDelivery

namespace Batch

/-- Listing all kinds adds no entries. -/
theorem entries_listAll (g : Groups Item) : (listAll g).entries = g.entries := by
  simp [listAll, Groups.entries, List.flatMap_append, List.flatMap_map]

/-- All kinds are listed. -/
theorem lists_listAll (g : Groups Item) (kind : Kind) : (listAll g).lists kind = true := by
  by_contra hnone
  have hlookup := (Groups.lookup_eq_none_iff (listAll g) kind).mpr fun hmem => hnone ((Groups.lists_iff _ kind).mpr hmem)
  rw [lookup_listAll] at hlookup
  cases hlookup

variable (c : ChangeSet) (environment : Option String) (persist : Bool)

/-- The items of a batch are those of the changes that it was made from. -/
theorem mem_ofChangeSet {e : Kind × String × Item} (h : e ∈ (ofChangeSet c environment persist).data.entries) :
    ∃ change ∈ c.changes, change.entry? = some e := by
  simp only [ofChangeSet] at h
  split at h
  · rw [entries_listAll] at h
    exact mem_group h
  · exact mem_group h

/-- A batch of all data lists all kinds. -/
theorem lists_ofChangeSet (h : (ofChangeSet c environment persist).extent = .full) (kind : Kind) :
    (ofChangeSet c environment persist).data.lists kind = true := by
  have hf : c.extent = .full := h
  simp only [ofChangeSet, if_pos hf]
  exact lists_listAll _ kind

end Batch

/-! ## Items that came in messages -/

namespace Json

/-- A part of a value that can be read back can be. -/
theorem HasPart.wellFormed {v part : Json} (h : v.HasPart part) (hv : v.WellFormed) : part.WellFormed := by
  cases v with
  | obj fs =>
    obtain ⟨key, hmem⟩ := h
    exact wellFormedFields_iff.mp hv.2 _ hmem
  | arr vs => exact wellFormedItems_iff.mp hv _ h
  | _ => cases h

/-- A part of a value nests less deeply than the value. -/
theorem HasPart.depth_lt {v part : Json} (h : v.HasPart part) : part.depth < v.depth := by
  cases v with
  | obj fs =>
    obtain ⟨key, hmem⟩ := h
    have hle := depthFields_le_iff.mp (Nat.le_refl (depthFields fs)) _ hmem
    simp only [depth] at hle ⊢
    omega
  | arr vs =>
    have hle := depthItems_le_iff.mp (Nat.le_refl (depthItems vs)) _ h
    simp only [depth] at hle ⊢
    omega
  | _ => cases h

end Json

/-- The body of a message was read from a text. -/
def Message.WasRead (msg : Message) : Prop := ∃ text, Json.parse? text = some msg.data

namespace Message

variable {msg : Message}

/-- The change of a message has a version that fits, and its object, if there is one, is a part of the body. -/
theorem of_change? {c : Change} (h : msg.change? = some c) :
    Json.IsVersion c.version ∧ ∀ object, c.object = some object → msg.data.HasPart object := by
  unfold Message.change? at h
  split at h
  · next p hm =>
    obtain rfl := Option.some.inj h
    obtain ⟨hversion, hpart⟩ := Format.of_read_put (Event.understood_of_decode hm).2.1
    refine ⟨hversion, ?_⟩
    rintro _ ⟨⟩
    exact hpart
  · next d hm =>
    obtain rfl := Option.some.inj h
    exact ⟨Format.of_read_delete (Event.understood_of_decode hm).2, nofun⟩
  · cases h

end Message

namespace Change

/-- The item that a change makes has the version of the change, and the object of it if it has a content. -/
theorem of_entry? {c : Change} {kind : Kind} {key : String} {item : Item} (h : c.entry? = some (kind, key, item)) :
    item.version = c.version ∧ ∀ v, item.content = some v → c.object = some v := by
  unfold entry? at h
  obtain ⟨kind', -, h⟩ := Option.bind_eq_some_iff.mp h
  split at h
  · next object _ hobject =>
    obtain ⟨-, -, rfl⟩ : kind' = kind ∧ c.key = key ∧ (⟨c.version, some object⟩ : Item) = item := by simpa using h
    refine ⟨rfl, ?_⟩
    rintro _ ⟨⟩
    exact hobject
  · cases h
  · obtain ⟨-, -, rfl⟩ : kind' = kind ∧ c.key = key ∧ Item.tombstone c.version = item := by simpa using h
    exact ⟨rfl, nofun⟩

end Change

namespace Batch

/-- The items of a batch that was made from a delivered change set are such that their texts are read again. -/
theorem writable_of_delivered {msgs : List Message} (hr : ∀ msg ∈ msgs, msg.WasRead) {c : ChangeSet}
    (hc : c ∈ Machine.initial.delivered msgs) (environment : Option String) (persist : Bool) {e : Kind × String × Item}
    (he : e ∈ (ofChangeSet c environment persist).data.entries) : e.2.2.Writable := by
  obtain ⟨change, hchange, hentry⟩ := mem_ofChangeSet c environment persist he
  obtain ⟨kind, key, item⟩ := e
  obtain ⟨hversion, hcontent⟩ := Change.of_entry? hentry
  obtain ⟨msg, hmsg, hsome⟩ : ∃ msg ∈ msgs, msg.change? = some change := by
    rcases Machine.delivered_whole .initial msgs hc with rfl | ⟨before, last, t, after, rfl, -, -, hsub⟩
    · cases hchange
    · obtain ⟨msg, hmsg, hsome⟩ := List.mem_filterMap.mp (hsub.subset hchange)
      exact ⟨msg, List.mem_append_left _ hmsg, hsome⟩
  obtain ⟨hfits, hpart⟩ := Message.of_change? hsome
  obtain ⟨text, htext⟩ := hr msg hmsg
  obtain ⟨hwell, hdepth⟩ := Json.wellFormed_of_parse? htext
  refine ⟨hversion ▸ hfits, ?_⟩
  intro v hv
  have hv := hpart v (hcontent v hv)
  exact ⟨hv.wellFormed hwell, Nat.le_of_lt (Nat.lt_of_lt_of_le hv.depth_lt hdepth)⟩

end Batch

end FlagDelivery
