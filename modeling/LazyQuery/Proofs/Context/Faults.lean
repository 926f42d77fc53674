import LazyQuery.Frame
import LazyQuery.Proofs.Context.Answer

/-! How asking a context for rows can fail. The settings are read before a collaborator is called,
and outside of what turns its failures into faults of this library; so what reading a number can
come to decides whether any other fault is seen. -/
namespace LazyQuery

namespace Text

/-- The text is a numeral, up to blanks around it. -/
def Numeral (t : String) : Prop := isNumeral (strip t.toList) = true

def Overlong (t : String) : Prop := Numeral t ∧ Number.digitLimit < (strip t.toList).length

def Spells (t : String) (n : Nat) : Prop := Numeral t ∧ denote (strip t.toList) = n

theorem strip_of_forall {cs : List Char} (h : ∀ c ∈ cs, isBlank c = false) : strip cs = cs := by
  have hdrop : ∀ ds : List Char, (∀ c ∈ ds, isBlank c = false) →
      ds.dropWhile isBlank = ds := by
    intro ds hds
    cases ds with
    | nil => rfl
    | cons d ds => exact List.dropWhile_cons_of_neg (by simp [hds d (List.mem_cons_self ..)])
  rw [strip, hdrop cs h, hdrop cs.reverse (fun c hc => h c (List.mem_reverse.mp hc)),
    List.reverse_reverse]

end Text

section reading
open Text
variable {t : String} {n : Nat}

theorem readCount_of_overlong (h : Overlong t) :
    readCount t.toList = .error (.lapse .badValue) := by
  obtain ⟨hn, hl⟩ := h
  simp only [readCount]
  rw [if_neg (by simpa [Numeral] using hn), if_pos hl]
  rfl

theorem readCount_of_not_numeral (h : ¬ Numeral t) : readCount t.toList = .ok none := by
  simp only [readCount]
  rw [if_pos (by simpa [Numeral] using h)]

theorem readCount_of_spells (h : Spells t n) (hl : ¬ Overlong t) :
    readCount t.toList = .ok (some n) := by
  obtain ⟨hn, rfl⟩ := h
  simp only [readCount]
  rw [if_neg (by simpa [Numeral] using hn), if_neg (fun h => hl ⟨hn, h⟩)]

theorem readCount_cases (hl : ¬ Overlong t) :
    (∃ n, Spells t n ∧ readCount t.toList = .ok (some n)) ∨
      (∀ n, ¬ Spells t n) ∧ readCount t.toList = .ok none := by
  by_cases hn : Numeral t
  · exact .inl ⟨_, ⟨hn, rfl⟩, readCount_of_spells ⟨hn, rfl⟩ hl⟩
  · exact .inr ⟨fun n h => hn h.1, readCount_of_not_numeral hn⟩

theorem Text.overlong_replicate {n : Nat} (h : Number.digitLimit < n) :
    Overlong (String.ofList (List.replicate n '1')) := by
  have hs : strip (String.ofList (List.replicate n '1')).toList = List.replicate n '1' := by
    rw [String.toList_ofList]
    refine strip_of_forall fun c hc => ?_
    rw [(List.mem_replicate.mp hc).2]
    decide
  refine ⟨?_, by rwa [hs, List.length_replicate]⟩
  have hd : isDigit '1' = true := by decide
  rw [Numeral, hs]
  simp [isNumeral, hd, Nat.ne_of_gt (Nat.zero_lt_of_lt h)]

theorem Text.Spells.unique {m : Nat} (h : Spells t n) (h' : Spells t m) : n = m :=
  h.2.symm.trans h'.2

theorem readPort_of_overlong {v : Datum} {source : String} (hv : v.plain = t) (h : Overlong t) :
    readPort v source = .error (.lapse .badValue) := by
  rw [readPort, hv, readCount_of_overlong h, Outcome.error_bind]

/-- A port whose text can be read is a number up to 65535; nothing else is. -/
theorem readPort_cases {v : Datum} (hv : v.plain = t) (hl : ¬ Overlong t) (source : String) :
    (∃ n ≤ 65535, Spells t n ∧ readPort v source = .ok n) ∨
      (∀ n ≤ 65535, ¬ Spells t n) ∧
        readPort v source = .error (.configuration (.badPort source v)) := by
  rw [readPort, hv]
  obtain ⟨n, hn, hr⟩ | ⟨hn, hr⟩ := readCount_cases hl
  · rw [hr, Outcome.ok_bind]
    by_cases hb : n ≤ 65535
    · exact .inl ⟨n, hb, hn, if_pos hb⟩
    · exact .inr ⟨fun m hm hs => hb (hn.unique hs ▸ hm), if_neg hb⟩
  · rw [hr, Outcome.ok_bind]
    exact .inr ⟨fun n _ => hn n, rfl⟩

theorem batchSize_of_overlong {s : Settings} (hs : s.get batchSizeKey = .text t) (h : Overlong t) :
    s.batchSize = .error (.lapse .badValue) := by
  rw [Settings.batchSize, Settings.getCount?, hs]
  simp only [readCount_of_overlong h, Outcome.error_bind]

/-- A batch size that can be read is a number that is not zero; nothing else is. -/
theorem batchSize_cases {s : Settings} (hs : s.get batchSizeKey = .text t) (hl : ¬ Overlong t) :
    (∃ n, 0 < n ∧ Spells t n ∧ s.batchSize = .ok n) ∨
      (∀ n, 0 < n → ¬ Spells t n) ∧ ∃ g, s.batchSize = .error (.configuration g) := by
  rw [Settings.batchSize, Settings.getCount?, hs]
  dsimp only
  obtain ⟨n, hn, hr⟩ | ⟨hn, hr⟩ := readCount_cases hl
  · cases n with
    | zero =>
      refine .inr ⟨fun m hm hs => ?_, _, by rw [hr]; rfl⟩
      obtain rfl := hn.unique hs
      exact Nat.lt_irrefl 0 hm
    | succ n => exact .inl ⟨n + 1, Nat.succ_pos n, hn, by rw [hr]; rfl⟩
  · exact .inr ⟨fun n _ => hn n, _, by rw [hr]; rfl⟩

end reading

def Assignments.Worded (a : Assignments) : Prop := ∀ e ∈ a, ∃ t, e.2 = .text t

theorem Assignments.Worded.get? {a : Assignments} (ha : a.Worded) {key : String} {v : Datum}
    (h : a.get? key = some v) : ∃ t, v = .text t := by
  obtain ⟨e, he, rfl⟩ := Option.map_eq_some_iff.mp h
  exact ha e (List.mem_of_find?_eq_some he)

theorem Settings.get_batchSizeKey {a : Assignments} (ha : a.Worded) :
    ∃ t, Settings.get ⟨a, standardCatalog⟩ batchSizeKey = .text t := by
  rw [Settings.get]
  cases h : a.get? batchSizeKey with
  | none => exact ⟨_, rfl⟩
  | some v => exact ha.get? h

namespace Fault

theorem isOwn_fromEngine (f : Fault) : f.fromEngine.isOwn = true := by
  unfold fromEngine
  split
  · assumption
  · rfl

theorem isOwn_fromTransport (f : Fault) : f.fromTransport.isOwn = true := by
  unfold fromTransport
  split
  · assumption
  · rfl

end Fault

namespace Context

/-- A place whose settings are texts. -/
inductive Configured : Context → Prop
  | here {settings : Assignments} (choice : EngineChoice) :
    settings.Worded → Configured (.here settings choice)
  | remote (host : Datum) (port : Nat) {settings : Assignments} (client : Client) :
    settings.Worded → Configured (.remote host port settings client)
  | cluster (master : String) {settings : Assignments} (client : Client) :
    settings.Worded → Configured (.cluster master settings client)

/-- The number that is read before anything is called is written with too many digits. -/
inductive Unreadable : Context → Prop
  | batchSize {settings : Assignments} {t : String} (choice : EngineChoice) :
    Settings.get ⟨settings, standardCatalog⟩ batchSizeKey = .text t → Text.Overlong t →
      Unreadable (.here settings choice)
  | port (master : String) {settings : Assignments} {host : Datum} {t : String} (client : Client) :
    settings.get? hostKey = some host → settings.get? portKey = some (.text t) →
    Text.Overlong t →
      Unreadable (.cluster master settings client)

/-- There is no engine, batch size, host or port, or what is given is not a batch size or a port. -/
inductive Misconfigured : Context → Prop
  | engine (settings : Assignments) : Misconfigured (.here settings .missing)
  | batchSize {settings : Assignments} {t : String} (choice : EngineChoice) :
    Settings.get ⟨settings, standardCatalog⟩ batchSizeKey = .text t →
      (∀ n, 0 < n → ¬ Text.Spells t n) → Misconfigured (.here settings choice)
  | noHost (master : String) {settings : Assignments} (client : Client) :
    settings.get? hostKey = none → Misconfigured (.cluster master settings client)
  | noPort (master : String) {settings : Assignments} (client : Client) :
    settings.get? portKey = none → Misconfigured (.cluster master settings client)
  | port (master : String) {settings : Assignments} {t : String} (client : Client) :
    settings.get? portKey = some (.text t) → (∀ n ≤ 65535, ¬ Text.Spells t n) →
      Misconfigured (.cluster master settings client)

/-- What is left to a collaborator once the settings have been read. -/
def delegated (files : Files) (c : Context) (p : Plan) : Outcome (Traced (List Batch)) :=
  match c with
  | .here settings choice => do
    let size ← Settings.batchSize ⟨settings, standardCatalog⟩
    let engine ← chosen files choice
    .ok (engine.run p size)
  | .remote host port _ client => .ok (client.request host port p)
  | .cluster _ settings client => do
    let (host, port) ← address settings
    .ok (client.request host port p)
  | .nowhere value => .error (.unknownState value.kind)

/-- The fault that tells of a collaborator's failure. -/
def told : Context → Fault → Fault
  | .here .. => fun g => .engine g true
  | _ => fun g => .transport g true

def reported : Context → Fault → Fault
  | .here .. => Fault.fromEngine
  | _ => Fault.fromTransport

theorem isOwn_reported (c : Context) (g : Fault) : (c.reported g).isOwn = true := by
  cases c with
  | here => exact g.isOwn_fromEngine
  | remote | cluster | nowhere => exact g.isOwn_fromTransport

theorem reported_of_isOwn (c : Context) {g : Fault} (h : g.isOwn = true) : c.reported g = g := by
  cases c <;> exact if_pos h

theorem reported_of_not_isOwn (c : Context) {g : Fault} (h : g.isOwn = false) :
    c.reported g = c.told g := by
  cases c <;> exact if_neg (by simp [h])

theorem text?_told (c : Context) (g : Fault) : (c.told g).text? = g.text? := by
  cases c <;> rfl

/-- Settings that cannot be read fail a run as they are; after that, a run is the collaborator's. -/
theorem outcome_collect (files : Files) (c : Context) (p : Plan) :
    (collect files c p).outcome =
      (delegated files c p >>= fun t => t.outcome.mapError c.reported) := by
  cases c with
  | here settings choice =>
    simp only [collect, collectHere, delegated, Traced.outcome_bind, Traced.outcome_silent,
      Traced.outcome_emit, Traced.outcome_mapFault, Outcome.ok_bind, bind_assoc]
    rfl
  | remote host port settings client =>
    simp only [collect, collectAsync, dispatch, delegated, Traced.outcome_bind, Traced.outcome_emit,
      Traced.outcome_mapFault, Outcome.ok_bind]
    rfl
  | cluster master settings client =>
    simp only [collect, collectAsync, dispatch, delegated, Traced.outcome_bind,
      Traced.outcome_silent,
      Traced.outcome_emit, Traced.outcome_mapFault, Outcome.ok_bind, bind_assoc]
    rfl
  | nowhere value => rfl

section settings
variable {settings : Assignments} {files : Files} {p : Plan}

theorem delegated_here_cases (ha : settings.Worded) (choice : EngineChoice)
    (hn : ¬ Unreadable (.here settings choice)) :
    (∃ t, delegated files (.here settings choice) p = .ok t ∧
      ¬ Misconfigured (.here settings choice)) ∨ Misconfigured (.here settings choice) ∧
        ∃ g, delegated files (.here settings choice) p = .error (.configuration g) := by
  obtain ⟨t, ht⟩ := Settings.get_batchSizeKey ha
  have hl : ¬ Text.Overlong t := fun h => hn (.batchSize choice ht h)
  obtain ⟨n, hpos, hspells, hs⟩ | ⟨hspells, g, hs⟩ := batchSize_cases ht hl
  · have hmissing : Misconfigured (.here settings choice) → choice = .missing := by
      intro h
      cases h with
      | engine _ => rfl
      | batchSize _ ht' h =>
        cases ht.symm.trans ht'
        exact absurd hspells (h n hpos)
    simp only [delegated, hs, Outcome.ok_bind]
    cases choice with
    | standard => exact .inl ⟨_, rfl, fun h => nomatch hmissing h⟩
    | custom e => exact .inl ⟨_, rfl, fun h => nomatch hmissing h⟩
    | missing => exact .inr ⟨.engine settings, _, rfl⟩
  · refine .inr ⟨.batchSize choice ht hspells, g, ?_⟩
    simp only [delegated, hs, Outcome.error_bind]

theorem address_cases (ha : settings.Worded) (master : String) (client : Client)
    (hn : ¬ Unreadable (.cluster master settings client)) :
    (∃ place, address settings = .ok place ∧
      ¬ Misconfigured (.cluster master settings client)) ∨
      Misconfigured (.cluster master settings client) ∧
        ∃ g, address settings = .error (.configuration g) := by
  rw [address]
  cases hh : settings.get? hostKey with
  | none => exact .inr ⟨.noHost master client hh, _, rfl⟩
  | some host =>
    cases hp : settings.get? portKey with
    | none => exact .inr ⟨.noPort master client hp, _, rfl⟩
    | some v =>
      obtain ⟨t, rfl⟩ := ha.get? hp
      have hl : ¬ Text.Overlong t := fun h => hn (.port master client hh hp h)
      dsimp only
      obtain ⟨n, hle, hspells, hr⟩ | ⟨hspells, hr⟩ :=
        readPort_cases (v := .text t) rfl hl portKey
      · refine .inl ⟨(host, n), by rw [hr]; rfl, fun h => ?_⟩
        cases h with
        | noHost _ _ h => cases hh.symm.trans h
        | noPort _ _ h => cases hp.symm.trans h
        | port _ _ hp' h =>
          cases hp.symm.trans hp'
          exact h n hle hspells
      · exact .inr ⟨.port master client hp hspells, _, by rw [hr]; rfl⟩

theorem delegated_cases (files : Files) (p : Plan) {c : Context} (hc : c.Configured)
    (hn : ¬ c.Unreadable) :
    (∃ t, delegated files c p = .ok t ∧ ¬ c.Misconfigured) ∨
      c.Misconfigured ∧ ∃ g, delegated files c p = .error (.configuration g) := by
  cases hc with
  | here choice ha => exact delegated_here_cases ha choice hn
  | remote host port client _ => exact .inl ⟨_, rfl, nofun⟩
  | cluster master client ha =>
    obtain ⟨place, hp, hm⟩ | ⟨hm, g, hp⟩ := address_cases ha master client hn
    · exact .inl ⟨_, by rw [delegated, hp]; rfl, hm⟩
    · exact .inr ⟨hm, g, by rw [delegated, hp]; rfl⟩

theorem delegated_of_unreadable {c : Context} (h : c.Unreadable) :
    delegated files c p = .error (.lapse .badValue) := by
  cases h with
  | batchSize choice ht hl => rw [delegated, batchSize_of_overlong ht hl, Outcome.error_bind]
  | port master client hh hp hl =>
    rw [delegated, address, hh, hp]
    dsimp only
    rw [readPort_of_overlong (v := .text _) rfl hl]
    rfl

end settings

/-- Where settings are texts, a run fails as a configuration if they are not what is needed, and
else ends as the collaborator's own run, with a failure that is not of this library told of by one
that is. A number written with too many digits is the one exception: it fails in a way that is not
this library's. -/
theorem collect_faults {c : Context} (hc : c.Configured) (files : Files) (p : Plan) :
    ((∃ f, (collect files c p).outcome = .error f ∧ f.isOwn = false) ↔ c.Unreadable) ∧
    (c.Unreadable → (collect files c p).outcome = .error (.lapse .badValue)) ∧
    (¬ c.Unreadable → c.Misconfigured →
      ∃ g, (collect files c p).outcome = .error (.configuration g)) ∧
    (¬ c.Unreadable → ¬ c.Misconfigured → ∃ t, delegated files c p = .ok t ∧
      (∀ bs, (collect files c p).outcome = .ok bs ↔ t.outcome = .ok bs) ∧
      ∀ g, t.outcome = .error g →
        (g.isOwn = true → (collect files c p).outcome = .error g) ∧
        (g.isOwn = false → (collect files c p).outcome = .error (c.told g) ∧
          (c.told g).isOwn = true ∧ (c.told g).text? = g.text?)) := by
  have hlapse (h : c.Unreadable) : (collect files c p).outcome = .error (.lapse .badValue) := by
    rw [outcome_collect, delegated_of_unreadable h, Outcome.error_bind]
  have hconf (h : ∃ g, delegated files c p = .error (.configuration g)) :
      ∃ g, (collect files c p).outcome = .error (.configuration g) := by
    obtain ⟨g, hg⟩ := h
    exact ⟨g, by rw [outcome_collect, hg, Outcome.error_bind]⟩
  refine ⟨⟨?_, fun h => ⟨_, hlapse h, rfl⟩⟩, hlapse, ?_, ?_⟩
  · rintro ⟨f, hf, ho⟩
    by_contra hn
    obtain ⟨t, ht, -⟩ | ⟨-, h⟩ := delegated_cases files p hc hn
    · rw [outcome_collect, ht, Outcome.ok_bind] at hf
      cases hg : t.outcome with
      | ok bs =>
        rw [hg] at hf
        cases hf
      | error g =>
        rw [hg] at hf
        cases hf
        exact absurd (isOwn_reported c g) (by simp [ho])
    · obtain ⟨g, hg⟩ := hconf h
      cases hf.symm.trans hg
      cases ho
  · intro hn hm
    obtain ⟨_, -, hm'⟩ | ⟨-, h⟩ := delegated_cases files p hc hn
    · exact absurd hm hm'
    · exact hconf h
  · intro hn hm
    obtain ⟨t, ht, -⟩ | ⟨hm', -⟩ := delegated_cases files p hc hn
    · have hout : (collect files c p).outcome = t.outcome.mapError c.reported := by
        rw [outcome_collect, ht, Outcome.ok_bind]
      refine ⟨t, ht, fun bs => by rw [hout, Outcome.mapError_eq_ok], fun g hg => ⟨?_, ?_⟩⟩
      · intro ho
        rw [hout, hg, Except.mapError, reported_of_isOwn c ho]
      · intro ho
        rw [hout, hg, Except.mapError, ← reported_of_not_isOwn c ho]
        refine ⟨rfl, isOwn_reported c g, ?_⟩
        rw [reported_of_not_isOwn c ho, text?_told]
    · exact absurd hm' hm

def longBatchSize : Assignments :=
  [(batchSizeKey, .text (String.ofList (List.replicate (Number.digitLimit + 1) '1')))]

/-- Rows of a table that has none are refused for the length of a numeral, and not as a
configuration. -/
theorem collect_faults_longBatchSize :
    Configured (.here longBatchSize .standard) ∧
      (collect [] (.here longBatchSize .standard) (.empty [⟨"n", .int64, true⟩])).outcome =
        .error (.lapse .badValue) ∧
      (Fault.lapse .badValue).isOwn = false := by
  have hc : Configured (.here longBatchSize .standard) :=
    .here .standard fun e he => ⟨_, congrArg Prod.snd (List.mem_singleton.mp he)⟩
  have hu : Unreadable (.here longBatchSize .standard) :=
    .batchSize .standard rfl (Text.overlong_replicate (Nat.lt_succ_self _))
  obtain ⟨-, h, -⟩ := collect_faults hc [] (.empty [⟨"n", .int64, true⟩])
  exact ⟨hc, h hu, rfl⟩

end Context
end LazyQuery
