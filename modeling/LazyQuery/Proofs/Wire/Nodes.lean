import LazyQuery.Proofs.Wire.Values

/-! Nodes in messages. A node that is written with all members of its kind is read by reading each
member at its own place, and then built from them. -/
namespace LazyQuery.Wire

/-- A member as it is written. -/
structure Part where
  member : Member
  item : Item

def Part.written (p : Part) : Item × Item := (textItem p.member.name, p.item)

def readParts (path : String) : List Part → Outcome Slots
  | [] => .ok []
  | p :: ps => do
    let slot ← readSlot p.member.shape (path ++ "." ++ p.member.name) p.item
    .ok ((p.member.name, slot) :: (← readParts path ps))

/-- The node of a kind, with these members and no others. -/
def NodeShape.written (n : NodeShape) (ps : List Part) : List (Item × Item) :=
  (textItem n.tag, textItem n.kind) :: ps.map Part.written

theorem node_eq (n : NodeShape) (ps : List Part) :
    node n.tag n.kind (ps.map fun p => (p.member.name, p.item)) = .map (n.written ps) := by
  rw [node, NodeShape.written, List.map_map]
  rfl

section reading
variable {n : NodeShape} {path : String}

theorem findTag_written (ps : List Part) : findTag n.tag path (n.written ps) = .ok n.kind := by
  have ht : named n.tag n.tag.toUTF8.toList = true := named_iff.mpr rfl
  rw [NodeShape.written, findTag, textItem, readKey, Outcome.ok_bind, if_pos ht]
  exact readUtf8_toUTF8 n.kind

theorem choose_written {shapes : List NodeShape} (ps : List Part)
    (h : shapes.find? (·.kind = n.kind) = some n) :
    NodeShape.choose shapes n.tag path (n.written ps) = .ok n := by
  rw [NodeShape.choose, findTag_written, Outcome.ok_bind, h]

theorem find_member (hn : (n.tag :: n.members.map (·.name)).Nodup) {m : Member}
    (hm : m ∈ n.members) :
    n.members.find? (fun k => named k.name m.name.toUTF8.toList) = some m ∧ m.name ≠ n.tag := by
  obtain ⟨ht, hd⟩ := List.nodup_cons.mp hn
  refine ⟨?_, fun he => ht (he ▸ List.mem_map_of_mem hm)⟩
  generalize n.members = ms at hm hd
  induction ms with
  | nil => cases hm
  | cons k ms ih =>
    obtain ⟨hk, hd⟩ := List.nodup_cons.mp hd
    rcases List.mem_cons.mp hm with rfl | hm
    · rw [List.find?_cons, named_iff.mpr rfl]
    · have hne : named k.name m.name.toUTF8.toList = false := by
        rw [Bool.eq_false_iff]
        exact fun h => hk (List.mem_map.mpr ⟨m, hm, (named_iff.mp h).symm⟩)
      rw [List.find?_cons, hne]
      exact ih hm hd

theorem readMembers_written (hn : (n.tag :: n.members.map (·.name)).Nodup) {ps : List Part}
    (hp : ∀ p ∈ ps, p.member ∈ n.members) (found : Slots) :
    readMembers n path found (ps.map Part.written) =
      (readParts path ps >>= fun slots => .ok (slots.reverse ++ found)) := by
  -- over the members still to be read, for whatever has been found so far
  induction ps generalizing found with
  | nil => rfl
  | cons p ps ih =>
    obtain ⟨hm, ht⟩ := find_member hn (hp p (List.mem_cons_self ..))
    have hr := ih fun q hq => hp q (List.mem_cons_of_mem _ hq)
    have hne : named n.tag p.member.name.toUTF8.toList ≠ true := fun h => ht (named_iff.mp h).symm
    rw [List.map_cons, Part.written, readMembers, textItem, readKey, Outcome.ok_bind, if_neg hne,
      hm, readParts]
    cases hs : readSlot p.member.shape (path ++ "." ++ p.member.name) p.item with
    | error e =>
      simp only [hs]
      rfl
    | ok slot =>
      simp only [hs, Outcome.ok_bind, hr]
      cases hq : readParts path ps with
      | error e => rfl
      | ok slots => simp [Outcome.ok_bind]

theorem names_of_readParts {ps : List Part} {slots : Slots} (h : readParts path ps = .ok slots) :
    slots.map (·.1) = ps.map (·.member.name) := by
  induction ps generalizing slots with
  | nil =>
    cases h
    rfl
  | cons p ps ih =>
    obtain ⟨slot, -, h⟩ := Outcome.bind_eq_ok.mp h
    obtain ⟨rest, hr, h⟩ := Outcome.bind_eq_ok.mp h
    cases h
    rw [List.map_cons, List.map_cons, ih hr]

theorem get?_eq_some {slots : Slots} (hd : (slots.map (·.1)).Nodup) {e : String × Slot}
    (he : e ∈ slots) : Slots.get? slots e.1 = some e.2 := by
  induction slots with
  | nil => cases he
  | cons s slots ih =>
    obtain ⟨hs, hd⟩ := List.nodup_cons.mp hd
    rcases List.mem_cons.mp he with rfl | he
    · simp [Slots.get?]
    · have hne : s.1 ≠ e.1 := fun h => hs (List.mem_map.mpr ⟨e, he, h.symm⟩)
      have hi := ih hd he
      rw [Slots.get?] at hi ⊢
      rwa [List.find?_cons_of_neg (by simpa using hne)]

theorem complete_found {found : Slots} {ms : List Member} {slots : Slots}
    (hs : slots.map (·.1) = ms.map (·.name))
    (hf : ∀ e ∈ slots, Slots.get? found e.1 = some e.2) : complete path found ms =
      .ok slots := by
  induction ms generalizing slots with
  | nil =>
    rw [List.map_nil, List.map_eq_nil_iff] at hs
    rw [hs]
    rfl
  | cons m ms ih =>
    cases slots with
    | nil => cases hs
    | cons e slots =>
      rw [List.map_cons, List.map_cons, List.cons.injEq] at hs
      have he := hf e (List.mem_cons_self ..)
      have hr := ih hs.2 fun e he => hf e (List.mem_cons_of_mem _ he)
      rw [complete, ← hs.1, he, hr]
      rfl

theorem readSlot_written {c : NodeClass} {ps : List Part}
    (hc : NodeShape.ofClass path (n.written ps) c = .ok n) (hm : n.members = ps.map Part.member)
    (hn : (n.tag :: n.members.map (·.name)).Nodup) :
    readSlot (.node c) path (.map (n.written ps)) = (readParts path ps >>= build c n.kind) := by
  have ht : named n.tag n.tag.toUTF8.toList = true := named_iff.mpr rfl
  have hk : checkTag n path (textItem n.kind) = .ok () := by
    rw [checkTag, textItem, readTag, readUtf8_toUTF8, Outcome.ok_bind, if_pos rfl]
  have hp : ∀ p ∈ ps, p.member ∈ n.members := fun p hp => hm ▸ List.mem_map_of_mem hp
  have hr : readMembers n path [] _ = _ := readMembers_written hn hp []
  rw [readSlot]
  simp only [hc, Outcome.ok_bind]
  rw [NodeShape.written, readMembers, textItem, readKey, Outcome.ok_bind, if_pos ht, hk,
    Outcome.ok_bind, hr]
  cases hs : readParts path ps with
  | error e => rfl
  | ok slots =>
    have hnames : slots.map (·.1) = n.members.map (·.name) := by
      rw [names_of_readParts hs, hm, List.map_map]
      rfl
    -- members are collected in reverse, and found again since their names are distinct
    have hd : (slots.reverse.map (·.1)).Nodup := by
      rw [List.map_reverse, hnames]
      exact List.pairwise_reverse.mpr ((List.nodup_cons.mp hn).2.imp Ne.symm)
    have hcomp : complete path (slots.reverse ++ []) n.members = .ok slots := by
      rw [List.append_nil]
      exact complete_found hnames fun e he => get?_eq_some hd (List.mem_reverse.mpr he)
    simp only [Outcome.ok_bind, hcomp]

end reading

/-- Whatever has an item is read back as what is delivered of it, wherever the item stands; of what
has no item nothing is delivered. -/
def Reads (shape : Shape) (item : Outcome Item) (delivered : Option Slot) : Prop :=
  match item with
  | .error _ => delivered = none
  | .ok i => ∀ path, (readSlot shape path i).toOption = delivered

/-- A member together with what is delivered of it. -/
structure Sent where
  member : Member
  item : Outcome Item
  slot : Option Slot
  reads : Reads member.shape item slot

def sentItems : List Sent → Outcome (List (String × Item))
  | [] => .ok []
  | s :: ss => do
    let i ← s.item
    .ok ((s.member.name, i) :: (← sentItems ss))

def sentSlots : List Sent → Option Slots
  | [] => some []
  | s :: ss => s.slot.bind fun slot => (sentSlots ss).map fun rest => (s.member.name, slot) :: rest

theorem sentSlots_of_error {ss : List Sent} {e : Fault} (h : sentItems ss = .error e) :
    sentSlots ss = none := by
  induction ss with
  | nil => cases h
  | cons s ss ih =>
    have hr := s.reads
    cases hi : s.item with
    | error f =>
      rw [hi] at hr
      rw [sentSlots, show s.slot = none from hr]
      rfl
    | ok i =>
      rw [sentItems, hi, Outcome.ok_bind] at h
      cases hs : sentItems ss with
      | error f =>
        rw [sentSlots, ih (by rw [hs] at h ⊢; exact h)]
        cases s.slot <;> rfl
      | ok is =>
        rw [hs] at h
        cases h

theorem readParts_sent {ss : List Sent} {is : List (String × Item)} (h : sentItems ss = .ok is) :
    ∃ ps : List Part, is = ps.map (fun p => (p.member.name, p.item)) ∧
      ps.map Part.member = ss.map Sent.member ∧
      ∀ path, (readParts path ps).toOption = sentSlots ss := by
  induction ss generalizing is with
  | nil =>
    cases h
    exact ⟨[], rfl, rfl, fun _ => rfl⟩
  | cons s ss ih =>
    obtain ⟨i, hi, h⟩ := Outcome.bind_eq_ok.mp h
    obtain ⟨rest, hrest, h⟩ := Outcome.bind_eq_ok.mp h
    cases h
    obtain ⟨ps, rfl, hm, hp⟩ := ih hrest
    refine ⟨⟨s.member, i⟩ :: ps, rfl,
      by rw [List.map_cons, List.map_cons, hm], fun path => ?_⟩
    have hr : ∀ path, (readSlot s.member.shape path i).toOption = s.slot := by
      have hs := s.reads
      rw [hi] at hs
      exact hs
    simp only [readParts, Outcome.toOption_bind, hp, sentSlots, hr]
    cases s.slot with
    | none => rfl
    | some slot => cases sentSlots ss <;> rfl

theorem reads_node {c : NodeClass} {n : NodeShape} (ss : List Sent)
    (hc : ∀ path ps, NodeShape.ofClass path (n.written ps) c = .ok n)
    (hm : n.members = ss.map Sent.member) (hn : (n.tag :: n.members.map (·.name)).Nodup) :
    Reads (.node c) (sentItems ss >>= fun is => .ok (node n.tag n.kind is))
      ((sentSlots ss).bind fun slots => (build c n.kind slots).toOption) := by
  cases hs : sentItems ss with
  | error e =>
    rw [sentSlots_of_error hs]
    exact rfl
  | ok is =>
    intro path
    obtain ⟨ps, rfl, hp, hr⟩ := readParts_sent hs
    rw [node_eq, readSlot_written (hc path ps) (hm.trans hp.symm) hn, Outcome.toOption_bind, hr]

section lists
variable {shape : Shape}

def ReadsAll (shape : Shape) (items : Outcome (List Item)) (delivered : Option (List Slot)) :
    Prop :=
  match items with
  | .error _ => delivered = none
  | .ok is => ∀ path k, (readSlots shape path k is).toOption = delivered

theorem readsAll_nil : ReadsAll shape (.ok []) (some []) := fun _ _ => rfl

theorem readsAll_cons {item : Outcome Item} {items : Outcome (List Item)} {slot : Option Slot}
    {slots : Option (List Slot)} (h : Reads shape item slot) (hs : ReadsAll shape items slots) :
    ReadsAll shape (item >>= fun i => items >>= fun is => .ok (i :: is))
      (slot.bind fun s => slots.map fun ss => s :: ss) := by
  cases item with
  | error e =>
    rw [show slot = none from h]
    exact rfl
  | ok i =>
    cases items with
    | error e =>
      rw [show slots = none from hs]
      cases slot <;> exact rfl
    | ok is =>
      intro path k
      have hi : ∀ path, (readSlot shape path i).toOption = slot := h
      have his : ∀ path k, (readSlots shape path k is).toOption = slots := hs
      rw [readSlots, Outcome.toOption_bind, hi]
      simp only [Outcome.toOption_bind, his]
      cases slot with
      | none => rfl
      | some s => cases slots <;> rfl

theorem reads_items (outer : Shape) {items : Outcome (List Item)} {slots : Option (List Slot)}
    (ho : ∀ path is, readSlot outer path (.list is) =
      (readSlots shape path 0 is >>= fun ss => .ok (.list ss)))
    (h : ReadsAll shape items slots) :
    Reads outer (items >>= fun is => .ok (.list is)) (slots.map .list) := by
  cases items with
  | error e =>
    rw [show slots = none from h]
    exact rfl
  | ok is =>
    intro path
    have his : (readSlots shape path 0 is).toOption = slots := h path 0
    rw [ho, Outcome.toOption_bind, his]
    cases slots <;> rfl

theorem reads_list {items : Outcome (List Item)} {slots : Option (List Slot)}
    (h : ReadsAll shape items slots) :
    Reads (.list shape) (items >>= fun is => .ok (.list is)) (slots.map .list) :=
  reads_items (.list shape) (fun _ _ => by rw [readSlot]) h

end lists

section leaves

theorem reads_text (s : String) : Reads .text (.ok (textItem s)) (some (.text s)) := by
  intro path
  rw [textItem, readSlot, readPlain, readUtf8_toUTF8]
  · rfl
  · simp
  · simp

theorem reads_int (i : Int) :
    Reads .int (intItem i) (if Held i then some (.int i) else none) := by
  by_cases h : Held i
  · rw [intItem_ok h, if_pos h]
    exact fun _ => rfl
  · have hi : intItem i = fail .overflow := by
      rw [intItem, if_neg (by simpa [Held] using h)]
    rw [hi, if_neg h]
    exact rfl

theorem reads_any (d : Datum) : Reads .any (itemOf d) (d.delivered?.map .any) := by
  rw [Datum.delivered?]
  cases hd : itemOf d with
  | error e => exact rfl
  | ok i =>
    intro path
    have hi : readSlot .any path i = (datumOf path i >>= fun d => .ok (.any d)) := by
      cases i <;> rfl
    rw [hi, Outcome.toOption_bind, toOption_datumOf path "" i, Outcome.toOption_ok,
      Option.bind_some]
    cases (datumOf "" i).toOption <;> rfl

theorem reads_bool (b : Bool) : Reads .bool (.ok (.bool b)) (some (.bool b)) := fun _ => rfl

theorem reads_schema (s : Schema) : Reads .schema (.ok (.schema s)) (some (.schema s)) :=
    fun _ => rfl

theorem reads_type (t : DataType) : Reads .type (.ok (.type t)) (some (.type t)) := fun _ => rfl

end leaves

end LazyQuery.Wire
