import LazyQuery.Proofs.Wire.Travelling

/-! Requests that were read from a message. Members may have come in any order, with others
between them or left to their defaults; what they make is a plan that has a message, which
carries it unchanged. -/
namespace LazyQuery
namespace Wire

/-- What can stand where something of this shape is expected, if it was read from a message. -/
inductive Fills : Shape → Slot → Prop
  | text {s : String} : (textItem s).fits = true → Fills .text (.text s)
  | int {i : Int} : Held i → Fills .int (.int i)
  | bool (b : Bool) : Fills .bool (.bool b)
  | any {d : Datum} : d.Carried → Fills .any (.any d)
  | schema (s : Schema) : Fills .schema (.schema s)
  | type (t : DataType) : Fills .type (.type t)
  | batch (b : Batch) : Fills .batch (.batch b)
  | request {p : Plan} : p.Carried → Fills (.node .request) (.plan p)
  | literal {v : Datum} (t : DataType) : v.Carried → Fills (.node .literal) (.expr (.literal v t))
  | expr {e : Expr} : e.Carried → Fills (.node .expr) (.expr e)
  | plan {p : Plan} : p.Carried → Fills (.node .plan) (.plan p)
  | list {member : Shape} {slots : List Slot} :
    slots.length < sizeLimit → (∀ s ∈ slots, Fills member s) →
    Fills (.list member) (.list slots)
  | null (member : Shape) : Fills (.listOrNull member) .null
  | present {member : Shape} {slots : List Slot} :
    slots.length < sizeLimit → (∀ s ∈ slots, Fills member s) →
      Fills (.listOrNull member) (.list slots)

/-- Members in order, each with what can stand for it. -/
def Filled (ms : List Member) (slots : Slots) : Prop :=
  List.Forall₂ (fun m e => e.1 = m.name ∧ Fills m.shape e.2) ms slots

section filled
variable {m : Member} {ms : List Member} {slots : Slots}

theorem Filled.cons (h : Filled (m :: ms) slots) :
    ∃ slot rest, slots = (m.name, slot) :: rest ∧ Fills m.shape slot ∧ Filled ms rest := by
  cases h with
  | @cons _ e _ rest he h =>
    obtain ⟨name, slot⟩ := e
    obtain ⟨rfl, hf⟩ := he
    exact ⟨slot, rest, rfl, hf, h⟩

theorem Filled.nil (h : Filled [] slots) : slots = [] := by
  cases h
  rfl

end filled

section build

theorem exists_list_of_fills {α : Type} {P : α → Prop} {shape : Shape} {make : α → Slot}
    (hone : ∀ s, Fills shape s → ∃ a, s = make a ∧ P a) {slots : List Slot}
    (h : ∀ s ∈ slots, Fills shape s) : ∃ as : List α, slots = as.map make ∧
    ∀ a ∈ as, P a := by
  induction slots with
  | nil => exact ⟨[], rfl, nofun⟩
  | cons s slots ih =>
    obtain ⟨as, rfl, has⟩ := ih fun s hs => h s (List.mem_cons_of_mem _ hs)
    obtain ⟨a, rfl, ha⟩ := hone s (h s (List.mem_cons_self ..))
    exact ⟨a :: as, rfl, List.forall_mem_cons.mpr ⟨ha, has⟩⟩

theorem expr_of_fills (s : Slot) (h : Fills (.node .expr) s) :
    ∃ e : Expr, s = .expr e ∧ e.Carried := by
  cases h with
  | expr he => exact ⟨_, rfl, he⟩

theorem fills_over (kind : String) (wrap : Expr → Expr)
    (hn : ⟨"kind", kind, [NodeShape.inner]⟩ ∈ NodeShape.exprs)
    (hi : ∀ e, exprItem (wrap e) = exprItem e >>= fun i => .ok (exprNode kind [("expr", i)]))
    (hd : ∀ e, (wrap e).delivered? = e.delivered?.map wrap)
    (hb : ∀ e, build .expr kind [("expr", .expr e)] = .ok (.expr (wrap e))) {slots : Slots}
    (hs : Filled [NodeShape.inner] slots) {slot : Slot} (h : build .expr kind slots = .ok slot) :
    Fills (.node .expr) slot := by
  obtain ⟨_, _, rfl, he, hs⟩ := hs.cons
  obtain rfl := hs.nil
  cases he with | @expr e he =>
  cases h.symm.trans (hb e)
  obtain ⟨i, hei, hf⟩ := he.item
  refine .expr ⟨⟨exprNode kind [("expr", i)], ?_, ?_⟩, ?_⟩
  · rw [hi, hei]
    rfl
  · exact (fits_over hn).mpr hf
  · rw [hd, he.delivered]
    rfl

theorem fills_build_expr {n : NodeShape} (hn : n ∈ NodeShape.exprs) {slots : Slots}
    (hs : Filled n.members slots) {slot : Slot} (h : build .expr n.kind slots = .ok slot) :
    Fills (.node .expr) slot := by
  simp only [NodeShape.exprs, List.mem_cons, List.not_mem_nil, or_false] at hn
  obtain rfl | rfl | rfl | rfl | rfl | rfl | rfl | rfl | rfl | rfl := hn
  · obtain ⟨_, _, rfl, hi, hs⟩ := hs.cons
    obtain rfl := hs.nil
    cases hi with | int hi =>
    cases h
    exact .expr (carried_column hi)
  · obtain ⟨_, _, rfl, hv, hs⟩ := hs.cons
    obtain ⟨_, _, rfl, ht, hs⟩ := hs.cons
    obtain rfl := hs.nil
    cases hv with | any hv =>
    cases ht with | type t =>
    cases h
    exact .expr (carried_literal t hv)
  · obtain rfl := hs.nil
    cases h
    exact .expr carried_wildcard
  · obtain ⟨_, _, rfl, hname, hs⟩ := hs.cons
    obtain ⟨_, _, rfl, hargs, hs⟩ := hs.cons
    obtain ⟨_, _, rfl, ht, hs⟩ := hs.cons
    obtain rfl := hs.nil
    cases hname with | @text name hname =>
    cases hargs with | list hn hargs =>
    cases ht with | type t =>
    obtain ⟨args, rfl, hes⟩ := exists_list_of_fills expr_of_fills hargs
    cases h.symm.trans (build_aggregate name args t)
    exact .expr (carried_aggregate t hname (by simpa using hn) hes)
  · obtain ⟨_, _, rfl, hl, hs⟩ := hs.cons
    obtain ⟨_, _, rfl, hop, hs⟩ := hs.cons
    obtain ⟨_, _, rfl, hr, hs⟩ := hs.cons
    obtain rfl := hs.nil
    cases hl with | expr hl =>
    cases hop with | text hop =>
    cases hr with | expr hr =>
    cases h
    exact .expr (carried_binary hop hl hr)
  · exact fills_over "Not" .not (by simp [NodeShape.exprs]) (fun _ => rfl) (fun _ => rfl)
      (fun _ => rfl) hs h
  · exact fills_over "IsNull" .isNull (by simp [NodeShape.exprs]) (fun _ => rfl) (fun _ => rfl)
      (fun _ => rfl) hs h
  · exact fills_over "IsNotNull" .isNotNull (by simp [NodeShape.exprs]) (fun _ => rfl)
      (fun _ => rfl) (fun _ => rfl) hs h
  · obtain ⟨_, _, rfl, he, hs⟩ := hs.cons
    obtain ⟨_, _, rfl, ht, hs⟩ := hs.cons
    obtain rfl := hs.nil
    cases he with | expr he =>
    cases ht with | type t =>
    cases h
    exact .expr (carried_cast t he)
  · obtain ⟨_, _, rfl, he, hs⟩ := hs.cons
    obtain ⟨_, _, rfl, hname, hs⟩ := hs.cons
    obtain rfl := hs.nil
    cases he with | expr he =>
    cases hname with | text hname =>
    cases h
    exact .expr (carried_alias hname he)

theorem fills_build_literal {slots : Slots} (hs : Filled NodeShape.literal.members slots)
    {slot : Slot} (h : build .literal NodeShape.literal.kind slots = .ok slot) :
    Fills (.node .literal) slot := by
  obtain ⟨_, _, rfl, hv, hs⟩ := hs.cons
  obtain ⟨_, _, rfl, ht, hs⟩ := hs.cons
  obtain rfl := hs.nil
  cases hv with | any hv =>
  cases ht with | type t =>
  cases h
  exact .literal t hv

theorem batch_of_fills (s : Slot) (h : Fills .batch s) : ∃ b : Batch, s = .batch b ∧ True := by
  cases h with
  | batch b => exact ⟨b, rfl, trivial⟩

theorem position_of_fills (s : Slot) (h : Fills .int s) : ∃ i : Int, s = .int i ∧ Held i := by
  cases h with
  | int hi => exact ⟨_, rfl, hi⟩

theorem fills_build_plan {n : NodeShape} (hn : n ∈ NodeShape.plans) {slots : Slots}
    (hs : Filled n.members slots) {slot : Slot} (h : build .plan n.kind slots = .ok slot) :
    Fills (.node .plan) slot := by
  simp only [NodeShape.plans, List.mem_cons, List.not_mem_nil, or_false] at hn
  obtain rfl | rfl | rfl | rfl | rfl | rfl | rfl := hn
  · obtain ⟨_, _, rfl, hs', hs⟩ := hs.cons
    obtain rfl := hs.nil
    cases hs' with | schema s =>
    cases h
    exact .plan (carried_empty s)
  · obtain ⟨_, _, rfl, hb, hs⟩ := hs.cons
    obtain ⟨_, _, rfl, hs', hs⟩ := hs.cons
    obtain rfl := hs.nil
    cases hb with | list hn hb =>
    cases hs' with | schema s =>
    obtain ⟨bs, rfl, -⟩ := exists_list_of_fills batch_of_fills hb
    cases h.symm.trans (build_memory bs s)
    exact .plan (carried_memory s (by simpa using hn))
  · obtain ⟨_, _, rfl, hpath, hs⟩ := hs.cons
    obtain ⟨_, _, rfl, hformat, hs⟩ := hs.cons
    obtain ⟨_, _, rfl, hs', hs⟩ := hs.cons
    obtain ⟨_, _, rfl, hprojected, hs⟩ := hs.cons
    obtain ⟨_, _, rfl, hprojection, hs⟩ := hs.cons
    obtain ⟨_, _, rfl, hheader, hs⟩ := hs.cons
    obtain ⟨_, _, rfl, hdelimiter, hs⟩ := hs.cons
    obtain rfl := hs.nil
    cases hpath with | @text path hpath =>
    cases hformat with | @text format hformat =>
    cases hs' with | schema s =>
    cases hprojected with | schema projected =>
    cases hheader with | bool header =>
    cases hdelimiter with | @text delimiter hdelimiter =>
    cases hprojection with
    | null _ =>
      cases h.symm.trans (build_file ⟨path, format, s, projected, none, header, delimiter⟩)
      refine .plan (carried_file hpath hformat (fun _ he => ?_) hdelimiter)
      cases he
    | present hn hi =>
      obtain ⟨is, rfl, his⟩ := exists_list_of_fills position_of_fills hi
      cases h.symm.trans (build_file ⟨path, format, s, projected, some is, header, delimiter⟩)
      refine .plan (carried_file hpath hformat (fun is' he => ?_) hdelimiter)
      cases he
      exact ⟨by simpa using hn, his⟩
  · obtain ⟨_, _, rfl, he, hs⟩ := hs.cons
    obtain ⟨_, _, rfl, hp, hs⟩ := hs.cons
    obtain ⟨_, _, rfl, hs', hs⟩ := hs.cons
    obtain rfl := hs.nil
    cases he with | list hn he =>
    cases hp with | @plan p hp =>
    cases hs' with | schema s =>
    obtain ⟨es, rfl, hes⟩ := exists_list_of_fills expr_of_fills he
    cases h.symm.trans (build_projection es p s)
    exact .plan (carried_projection s (by simpa using hn) hes hp)
  · obtain ⟨_, _, rfl, he, hs⟩ := hs.cons
    obtain ⟨_, _, rfl, hp, hs⟩ := hs.cons
    obtain rfl := hs.nil
    cases he with | expr he =>
    cases hp with | plan hp =>
    cases h
    exact .plan (carried_selection he hp)
  · obtain ⟨_, _, rfl, he, hs⟩ := hs.cons
    obtain ⟨_, _, rfl, hp, hs⟩ := hs.cons
    obtain ⟨_, _, rfl, hs', hs⟩ := hs.cons
    obtain rfl := hs.nil
    cases he with | literal t hv =>
    cases hp with | plan hp =>
    cases hs' with | schema s =>
    cases h
    exact .plan (carried_limit t s hv hp)
  · obtain ⟨_, _, rfl, hp, hs⟩ := hs.cons
    obtain ⟨_, _, rfl, hg, hs⟩ := hs.cons
    obtain ⟨_, _, rfl, ha, hs⟩ := hs.cons
    obtain ⟨_, _, rfl, hs', hs⟩ := hs.cons
    obtain rfl := hs.nil
    cases hp with | @plan p hp =>
    cases hg with | list hng hg =>
    cases ha with | list hna ha =>
    cases hs' with | schema s =>
    obtain ⟨gs, rfl, hgs⟩ := exists_list_of_fills expr_of_fills hg
    obtain ⟨as, rfl, has⟩ := exists_list_of_fills expr_of_fills ha
    cases h.symm.trans (build_grouping p gs as s)
    exact .plan (carried_grouping s (by simpa using hng) (by simpa using hna) hgs has hp)

theorem fills_build_request {slots : Slots} (hs : Filled NodeShape.request.members slots)
    {slot : Slot} (h : build .request NodeShape.request.kind slots = .ok slot) :
    Fills (.node .request) slot := by
  obtain ⟨_, _, rfl, hp, hs⟩ := hs.cons
  obtain rfl := hs.nil
  cases hp with | plan hp =>
  cases h
  exact .request hp

end build

section reading
variable {n : NodeShape} {m : Member} {path : String}

/-- What is read of an item in the place of a member, or of a default that takes it. -/
def Found (n : NodeShape) (found : Slots) : Prop :=
  ∀ e ∈ found, ∃ m ∈ n.members, m.name = e.1 ∧ Fills m.shape e.2

theorem names_nodup (hn : n ∈ NodeShape.request :: (NodeShape.exprs ++ NodeShape.plans)) :
    (n.members.map (·.name)).Nodup := by
  rcases List.mem_cons.mp hn with rfl | hn
  · exact List.nodup_singleton _
  rcases List.mem_append.mp hn with hn | hn
  · exact (List.nodup_cons.mp (kind_found (c := .expr) hn).2.2).2
  · exact (List.nodup_cons.mp (kind_found (c := .plan) hn).2.2).2

theorem fills_default (hn : n ∈ NodeShape.request :: (NodeShape.exprs ++ NodeShape.plans))
    (hm : m ∈ n.members) {slot : Slot} (hd : m.default = some slot) : Fills m.shape slot := by
  have hcases : m.default = none ∨ m = ⟨"projection", .listOrNull .int, some .null⟩ ∨
      m = ⟨"has_header", .bool, some (.bool true)⟩ ∨
      m = ⟨"delimiter", .text, some (.text ",")⟩ := by
    simp only [NodeShape.exprs, NodeShape.plans, List.cons_append, List.nil_append, List.mem_cons,
      List.not_mem_nil, or_false] at hn
    obtain rfl | rfl | rfl | rfl | rfl | rfl | rfl | rfl | rfl | rfl | rfl | rfl | rfl | rfl | rfl |
      rfl | rfl | rfl := hn <;>
      simp [NodeShape.request, NodeShape.literal, NodeShape.inner, NodeShape.input,
        NodeShape.schema] at hm <;> aesop
  obtain h | rfl | rfl | rfl := hcases
  · cases h.symm.trans hd
  · cases hd
    exact .null _
  · cases hd
    exact .bool true
  · cases hd
    exact .text (by decide +kernel)

theorem filled_complete (hn : n ∈ NodeShape.request :: (NodeShape.exprs ++ NodeShape.plans))
    {found : Slots} (hf : Found n found) {ms : List Member} (hms : ∀ m ∈ ms, m ∈ n.members)
    {slots : Slots} (h : complete path found ms = .ok slots) : Filled ms slots := by
  induction ms generalizing slots with
  | nil =>
    cases h
    exact List.Forall₂.nil
  | cons m ms ih =>
    have hm := hms m (List.mem_cons_self ..)
    rw [complete] at h
    split at h
    · rename_i slot hslot
      obtain ⟨rest, hrest, h⟩ := Outcome.bind_eq_ok.mp h
      cases h
      refine List.Forall₂.cons ⟨rfl,
        ?_⟩ (ih (fun m hm => hms m (List.mem_cons_of_mem _ hm)) hrest)
      cases hg : found.get? m.name with
      | none =>
        rw [hg] at hslot
        exact fills_default hn hm hslot
      | some found =>
        rw [hg] at hslot
        cases hslot
        obtain ⟨e, he, rfl⟩ := Option.map_eq_some_iff.mp hg
        obtain ⟨m', hm', hname, hfill⟩ := hf e (List.mem_of_find?_eq_some he)
        have hme : e.1 = m.name := by simpa using List.find?_some he
        obtain rfl := List.inj_on_of_nodup_map (names_nodup hn) hm' hm (hname.trans hme)
        exact hfill
    · cases h

theorem fills_build {c : NodeClass} {es : List (Item × Item)}
    (hc : NodeShape.ofClass path es c = .ok n) :
    n ∈ NodeShape.request :: (NodeShape.exprs ++ NodeShape.plans) ∧
      ∀ slots slot, Filled n.members slots → build c n.kind slots = .ok slot →
        Fills (.node c) slot := by
  have hchoose {shapes : List NodeShape} {tag : String}
      (h : NodeShape.choose shapes tag path es = .ok n) : n ∈ shapes := by
    obtain ⟨kind, -, h⟩ := Outcome.bind_eq_ok.mp h
    split at h
    · rename_i hf
      cases h
      exact List.mem_of_find?_eq_some hf
    · cases h
  cases c with
  | request =>
    cases hc
    exact ⟨List.mem_cons_self .., fun _ _ hs h => fills_build_request hs h⟩
  | literal =>
    cases hc
    exact ⟨mem_exprs (by simp [NodeShape.exprs]), fun _ _ hs h => fills_build_literal hs h⟩
  | expr =>
    have hn := hchoose hc
    exact ⟨mem_exprs hn, fun _ _ hs h => fills_build_expr hn hs h⟩
  | plan =>
    have hn := hchoose hc
    exact ⟨mem_plans hn, fun _ _ hs h => fills_build_plan hn hs h⟩

theorem fills_readPlain {shape : Shape} {i : Item} (hf : i.fits = true) {slot : Slot}
    (h : readPlain shape path i = .ok slot) : Fills shape slot := by
  cases shape with
  | any =>
    obtain ⟨d, hd, h⟩ := Outcome.bind_eq_ok.mp h
    cases h
    exact .any (carried_of_datumOf hd hf)
  | schema =>
    obtain ⟨d, -, h⟩ := Outcome.bind_eq_ok.mp h
    cases d with
    | schema s =>
      cases h
      exact .schema s
    | _ => cases h
  | type =>
    obtain ⟨d, -, h⟩ := Outcome.bind_eq_ok.mp h
    cases d with
    | type t =>
      cases h
      exact .type t
    | _ => cases h
  | batch =>
    obtain ⟨d, -, h⟩ := Outcome.bind_eq_ok.mp h
    cases d with
    | batch b =>
      cases h
      exact .batch b
    | _ => cases h
  | text =>
    cases i with
    | text bs =>
      obtain ⟨s, hs, h⟩ := Outcome.bind_eq_ok.mp h
      cases h
      exact .text (textItem_of_readUtf8 hs ▸ hf)
    | _ => cases h
  | int =>
    cases i with
    | int i =>
      cases h
      exact .int (fits_int.mp hf)
    | _ => cases h
  | bool =>
    cases i with
    | bool b =>
      cases h
      exact .bool b
    | _ => cases h
  | node c => cases i <;> cases h
  | list member => cases i <;> cases h
  | listOrNull member =>
    cases i with
    | null =>
      cases h
      exact .null member
    | _ => cases h

mutual
theorem fills_readSlot {shape : Shape} {path : String} {i : Item} (hf : i.fits = true) {slot : Slot}
    (h : readSlot shape path i = .ok slot) : Fills shape slot := by
  cases i with
  | map es =>
    have hes := (Bool.and_eq_true_iff.mp hf).2
    cases shape with
    | node c =>
      rw [readSlot] at h
      obtain ⟨n, hc, h⟩ := Outcome.bind_eq_ok.mp h
      obtain ⟨found, hr, h⟩ := Outcome.bind_eq_ok.mp h
      obtain ⟨slots, hcomp, h⟩ := Outcome.bind_eq_ok.mp h
      obtain ⟨hn, hb⟩ := fills_build hc
      have hfound := found_readMembers hes (List.forall_mem_nil _) hr
      exact hb slots slot (filled_complete hn hfound (fun _ hm => hm) hcomp) h
    | _ =>
      rw [readSlot_map es (by nofun)] at h
      exact fills_readPlain hf h
  | list is =>
    obtain ⟨hn, his⟩ := Bool.and_eq_true_iff.mp hf
    cases shape with
    | list member =>
      rw [readSlot] at h
      obtain ⟨slots, hs, h⟩ := Outcome.bind_eq_ok.mp h
      cases h
      obtain ⟨hlen, hfs⟩ := fills_readSlots his hs
      exact .list (hlen ▸ of_decide_eq_true hn) hfs
    | listOrNull member =>
      rw [readSlot] at h
      obtain ⟨slots, hs, h⟩ := Outcome.bind_eq_ok.mp h
      cases h
      obtain ⟨hlen, hfs⟩ := fills_readSlots his hs
      exact .present (hlen ▸ of_decide_eq_true hn) hfs
    | _ =>
      rw [readSlot_list is (by nofun) (by nofun)] at h
      exact fills_readPlain hf h
  | _ =>
    rw [readSlot_plain (by nofun) (by nofun)] at h
    exact fills_readPlain hf h

theorem fills_readSlots {shape : Shape} {path : String} {k : Nat} {is : List Item}
    (hf : allFit is = true) {slots : List Slot} (h : readSlots shape path k is = .ok slots) :
    slots.length = is.length ∧ ∀ s ∈ slots, Fills shape s := by
  cases is with
  | nil =>
    cases h
    exact ⟨rfl, nofun⟩
  | cons i is =>
    obtain ⟨hi, his⟩ := Bool.and_eq_true_iff.mp hf
    obtain ⟨slot, hs, h⟩ := Outcome.bind_eq_ok.mp h
    obtain ⟨slots, hss, h⟩ := Outcome.bind_eq_ok.mp h
    cases h
    obtain ⟨hlen, hfs⟩ := fills_readSlots his hss
    exact ⟨by rw [List.length_cons, List.length_cons, hlen],
      List.forall_mem_cons.mpr ⟨fills_readSlot hi hs, hfs⟩⟩

theorem found_readMembers {n : NodeShape} {path : String} {found found' : Slots}
    {es : List (Item × Item)} (hf : entriesFit es = true) (hfound : Found n found)
    (h : readMembers n path found es = .ok found') : Found n found' := by
  match es with
  | [] =>
    cases h
    exact hfound
  | (k, v) :: es =>
    obtain ⟨hkv, hes⟩ := Bool.and_eq_true_iff.mp hf
    have hv := (Bool.and_eq_true_iff.mp hkv).2
    rw [readMembers] at h
    obtain ⟨key, -, h⟩ := Outcome.bind_eq_ok.mp h
    split at h
    · obtain ⟨_, -, h⟩ := Outcome.bind_eq_ok.mp h
      exact found_readMembers hes hfound h
    split at h
    · rename_i m hm
      obtain ⟨slot, hs, h⟩ := Outcome.bind_eq_ok.mp h
      have hnew : Fills m.shape slot := fills_readSlot hv hs
      refine found_readMembers hes ?_ h
      exact List.forall_mem_cons.mpr ⟨⟨m, List.mem_of_find?_eq_some hm, rfl, hnew⟩, hfound⟩
    · obtain ⟨_, -, h⟩ := Outcome.bind_eq_ok.mp h
      exact found_readMembers hes hfound h
end

end reading

theorem carried_of_decodeRequest {ts : List Token} {p : Plan} (h : decodeRequest ts = .ok p) :
    p.Carried := by
  obtain ⟨read, hd⟩ : ∃ read, decode ts = read := ⟨_, rfl⟩
  rw [decodeRequest, hd] at h
  obtain ⟨slot, hs, h⟩ := Outcome.bind_eq_ok.mp h
  have hf : read.1.fits = true := hd ▸ fits_of_readSlot_decode (hd ▸ hs)
  cases fills_readSlot hf hs with
  | @request q hq =>
    dsimp only at h
    split at h
    · cases h
      exact hq
    · cases h

theorem encodeRequest_of_carried {p : Plan} (h : p.Carried) :
    ∃ ts, encodeRequest p = .ok ts ∧ decodeRequest ts = .ok p := by
  obtain ⟨i, hi, hf⟩ := h.item
  have hr : requestItem p = .ok (node "action" "Collect" [("plan", i)]) := by
    rw [requestItem, hi]
    rfl
  have hd := toOption_decodeRequest hr (fits_request.mpr hf)
  rw [h.delivered] at hd
  exact ⟨_, by rw [encodeRequest_of_item hr, if_pos (fits_request.mpr hf)],
    Outcome.toOption_eq_some.mp hd⟩

/-- Whatever form a request was read from, the plan that was read has a message. That message is
read as the same plan, so that writing it once more gives the same message. -/
theorem encodeRequest_decodeRequest {ts : List Token} {p : Plan} (h : decodeRequest ts = .ok p) :
    ∃ us, encodeRequest p = .ok us ∧
      ∃ q, decodeRequest us = .ok q ∧ q = p ∧ encodeRequest q = .ok us := by
  obtain ⟨us, he, hd⟩ := encodeRequest_of_carried (carried_of_decodeRequest h)
  exact ⟨us, he, p, hd, rfl, he⟩

/-- A message with its size in more bytes than needed, the plan before the action, and an entry that
nobody asks for; in the plan a file whose defaults are left out, and a record with two keys that are
equal and a point in time that is given in 12 bytes. -/
def looseMessage : List Token :=
  tokens [0xde, 0, 3] ++ encodeEntries
    [(textItem "spare", .list [.null]),
      (textItem "plan", .map
        [(textItem "input", .map
            [(textItem "path", textItem "a.csv"),
              (textItem "schema", .schema [⟨"a", .int64, true⟩]),
              (textItem "node", textItem "FileScan"), (textItem "projected_schema", .schema []),
              (textItem "file_type", textItem "csv")]),
          (textItem "node", textItem "Selection"),
          (textItem "expr", .map
            [(textItem "value", .map
                [(.list [.int 1], .null), (.list [.bool true], .int (-7)),
                  (.null, .extension (-1) (bigEndian 4 999999999 ++ bigEndian 8 5))]),
              (textItem "kind", textItem "Literal"), (textItem "dtype", .type .null)])]),
      (textItem "action", textItem "Collect")]

theorem encodeRequest_decodeRequest_loose : ∃ p, decodeRequest looseMessage = .ok p ∧
    ∃ us, us ≠ looseMessage ∧ encodeRequest p = .ok us ∧
      ∃ q, decodeRequest us = .ok q ∧ q = p ∧ encodeRequest q = .ok us := by
  have hsome : (decodeRequest looseMessage).toOption.isSome = true := by decide +kernel
  obtain ⟨p, hp⟩ := Option.isSome_iff_exists.mp hsome
  have hp := Outcome.toOption_eq_some.mp hp
  obtain ⟨us, he, h⟩ := encodeRequest_decodeRequest hp
  refine ⟨p, hp, us, ?_, he, h⟩
  have hne : (decodeRequest looseMessage >>= encodeRequest).toOption ≠ some looseMessage := by
    decide +kernel
  rintro rfl
  rw [hp, Outcome.ok_bind, he] at hne
  exact hne rfl

end Wire
end LazyQuery
