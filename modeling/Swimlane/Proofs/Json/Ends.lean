/-
  Swimlane — how a JSON text begins and ends.

  Between its gaps a text that the reader accepts begins with a character that opens a
  value and ends with one that closes it.  Neither is a blank or a backtick, and none
  begins the name of the format, so that the text can be told from a fence around it.

  * `IsOpener`, `IsCloser`: the first and the last characters of values.
  * `Closed`: a text whose last character but for gaps is a closer.  `Ending past mode`:
    what is known of the text `past` that led to the mode.
  * `ending_step`, `ending_run`: one character and a whole text keep this;
    `exists_opener`: where a value begins.
  * `payload_of_readWithin`: a text that is read, however closely, is a payload once it
    is trimmed.
-/
import Swimlane.Json.Reader
import Swimlane.Proofs.Text.Fence

namespace Swimlane.Json

/-! ## Openers and closers -/

/-- A character that a value begins with. -/
def IsOpener (c : Char) : Prop :=
  c ∈ ['[', '\x7b', '"', 'n', 't', 'f', '-'] ∨ c.isDigit = true

/-- A character that a value ends with. -/
def IsCloser (c : Char) : Prop := c ∈ [']', '\x7d', '"', 'l', 'e'] ∨ c.isDigit = true

section
variable {c : Char} {past : List Char}

theorem isBlank_of_isGap (h : isGap c = true) : Text.isBlank c = true := by
  have hgap : c = ' ' ∨ c = '\t' ∨ c = '\n' ∨ c = '\r' := by simpa [isGap, or_assoc] using h
  rcases hgap with rfl | rfl | rfl | rfl <;> rfl

/-- Digits are no blanks, no backticks and no letters of a format. -/
theorem plain_of_isDigit (h : c.isDigit = true) :
    Text.isBlank c = false ∧ c ≠ '\x60' ∧ c ≠ 'j' ∧ c ≠ 'J' := by
  have hrange : 48 ≤ c.toNat ∧ c.toNat ≤ 57 := by
    simpa [Char.isDigit, UInt32.le_iff_toNat_le] using h
  refine ⟨?_, ?_⟩
  · simp only [Text.isBlank, Text.blankRanges, List.any_cons, List.any_nil, Bool.or_false,
      Bool.or_eq_false_iff, Bool.and_eq_false_iff, decide_eq_false_iff_not]
    omega
  · refine ⟨?_, ?_, ?_⟩ <;> (rintro rfl; simp at h)

theorem IsOpener.plain (h : IsOpener c) :
    Text.isBlank c = false ∧ c ≠ '\x60' ∧ c ≠ 'j' ∧ c ≠ 'J' := by
  have hlisted : ∀ c ∈ ['[', '\x7b', '"', 'n', 't', 'f', '-'],
      Text.isBlank c = false ∧ c ≠ '\x60' ∧ c ≠ 'j' ∧ c ≠ 'J' := by
    simp [Text.isBlank, Text.blankRanges]
  rcases h with h | h
  · exact hlisted c h
  · exact plain_of_isDigit h

theorem IsCloser.plain (h : IsCloser c) : Text.isBlank c = false ∧ c ≠ '\x60' := by
  have hlisted : ∀ c ∈ [']', '\x7d', '"', 'l', 'e'], Text.isBlank c = false ∧ c ≠ '\x60' := by
    simp [Text.isBlank, Text.blankRanges]
  rcases h with h | h
  · exact hlisted c h
  · exact ⟨(plain_of_isDigit h).1, (plain_of_isDigit h).2.1⟩

/-! ## The end -/

/-- The text ends with a closer, but for gaps. -/
def Closed (past : List Char) : Prop :=
  ∃ core c gaps, past = core ++ c :: gaps ∧ IsCloser c ∧ ∀ c ∈ gaps, isGap c = true

theorem closed_snoc (h : IsCloser c) : Closed (past ++ [c]) :=
  ⟨past, c, [], rfl, h, List.forall_mem_nil _⟩

theorem Closed.snoc (h : Closed past) (hc : isGap c = true) : Closed (past ++ [c]) := by
  obtain ⟨core, d, gaps, rfl, hd, hgaps⟩ := h
  refine ⟨core, d, gaps ++ [c], by simp, hd, ?_⟩
  intro b hb
  rcases List.mem_append.1 hb with hb | hb
  · exact hgaps b hb
  · rwa [List.mem_singleton.1 hb]

/-- What is known of the text that led to a mode: it ends with a closer where the value
    may end, and a word will. -/
def Ending (past : List Char) : Mode → Prop
  | .after _ => Closed past
  | .number _ scan => scan.isComplete = true → Closed past
  | .word rest _ => ∃ c, rest.getLast? = some c ∧ IsCloser c
  | _ => True

/-- A number ends only where it is complete. -/
theorem isComplete_of_ended {s : NumberScan} (h : s.step c = .ended) : s.isComplete = true := by
  unfold NumberScan.step at h
  unfold NumberScan.isComplete
  cases hstage : s.stage <;> simp only [hstage] at h ⊢ <;> split_ifs at h

/-- A point or a mark has to be followed by more. -/
theorem isComplete_of_afterDigits {s s' : NumberScan} {pointAllowed : Bool}
    (h : s.afterDigits c pointAllowed = .more s') : s'.isComplete = false := by
  unfold NumberScan.afterDigits at h
  split_ifs at h <;> (cases h; rfl)

/-- A number is complete after a digit only. -/
theorem isDigit_of_more {s s' : NumberScan} (h : s.step c = .more s')
    (hs' : s'.isComplete = true) : c.isDigit = true := by
  by_contra hc
  have hzero : c ≠ '0' := by
    rintro rfl
    exact hc rfl
  have hfalse : s'.isComplete = false := by
    unfold NumberScan.step at h
    cases hstage : s.stage <;> simp only [hstage, hc, hzero, if_false] at h
    case zero | whole | fraction => exact isComplete_of_afterDigits h
    case mark => split_ifs at h <;> (cases h; rfl)
    all_goals cases h
  rw [hfalse] at hs'
  cases hs'

theorem isOpener_of_begin? {s : NumberScan} (h : NumberScan.begin? c = some s) : IsOpener c := by
  unfold NumberScan.begin? at h
  split_ifs at h with hminus hzero hdigit
  · exact Or.inl (by simp [hminus])
  · exact Or.inr (by rw [hzero]; rfl)
  · exact Or.inr hdigit

/-- A sign has to be followed by more. -/
theorem isDigit_of_begin? {s : NumberScan} (h : NumberScan.begin? c = some s)
    (hs : s.isComplete = true) : c.isDigit = true := by
  unfold NumberScan.begin? at h
  split_ifs at h with hminus hzero hdigit
  · cases h
    cases hs
  · rw [hzero]
    rfl
  · exact hdigit

end

/-! ## One character after the other -/

section
variable {d : ℕ} {c : Char} {past cs : List Char} {m m' : Machine} {stack : List Frame}

/-- A value begins with an opener.  It does not end there, unless that is a digit. -/
theorem opener_of_beginValue {shape : Shape} (h : beginValue d stack shape c = some m) :
    IsOpener c ∧ ∀ past, Ending (past ++ [c]) m.mode := by
  simp only [beginValue] at h
  split at h
  · split_ifs at h
    cases h
    exact ⟨Or.inl (by simp), fun _ => trivial⟩
  · split_ifs at h
    cases h
    exact ⟨Or.inl (by simp), fun _ => trivial⟩
  · cases h
    exact ⟨Or.inl (by simp), fun _ => trivial⟩
  · cases h
    exact ⟨Or.inl (by simp), fun _ => ⟨'l', rfl, Or.inl (by simp)⟩⟩
  · cases h
    exact ⟨Or.inl (by simp), fun _ => ⟨'e', rfl, Or.inl (by simp)⟩⟩
  · cases h
    exact ⟨Or.inl (by simp), fun _ => ⟨'e', rfl, Or.inl (by simp)⟩⟩
  · obtain ⟨scan, hscan, rfl⟩ := Option.map_eq_some_iff.1 h
    exact ⟨isOpener_of_begin? hscan, fun _ hcomplete =>
      closed_snoc (Or.inr (isDigit_of_begin? hscan hcomplete))⟩

/-- After a value come gaps, or what closes or goes on with the array or object. -/
theorem ending_afterValue {v : Json} (hpast : Closed past)
    (h : afterValue stack v c = some m) : Ending (past ++ [c]) m.mode := by
  unfold afterValue at h
  split_ifs at h with hgap
  · cases h
    exact hpast.snoc hgap
  · split at h
    · cases h
      trivial
    · cases h
      exact closed_snoc (Or.inl (by simp))
    · cases h
      trivial
    · cases h
      exact closed_snoc (Or.inl (by simp))
    · cases h

/-- A text ends with its quote. -/
theorem eq_quote_of_ended {skim : Bool} {scan : TextScan} (h : scan.step skim c = .ended) :
    c = '"' := by
  by_contra hquote
  simp only [TextScan.step, hquote, if_false] at h
  repeat' split at h
  all_goals cases h

/-- **One character** keeps what is known of the text. -/
theorem ending_step (hpast : Ending past m.mode) (h : step d m c = some m') :
    Ending (past ++ [c]) m'.mode := by
  obtain ⟨stack, mode⟩ := m
  simp only [step] at h
  cases mode with
  | value shape =>
    simp only at h
    split_ifs at h
    · cases h
      trivial
    · exact (opener_of_beginValue h).2 past
  | firstItem shape =>
    simp only at h
    split_ifs at h with _ hclose
    · cases h
      trivial
    · cases h
      exact closed_snoc (Or.inl (by simp [hclose]))
    · exact (opener_of_beginValue h).2 past
  | firstKey shape =>
    simp only at h
    split_ifs at h with _ hclose
    · cases h
      trivial
    · cases h
      exact closed_snoc (Or.inl (by simp [hclose]))
    · cases h
      trivial
  | key shape done =>
    simp only at h
    split_ifs at h <;> (cases h; trivial)
  | keyText shape done scan =>
    simp only at h
    split at h
    · cases h
      trivial
    · cases h
      trivial
    · cases h
  | colon shape done key =>
    simp only at h
    split_ifs at h <;> (cases h; trivial)
  | word rest v =>
    obtain ⟨b, hb, hcloser⟩ := hpast
    cases rest with
    | nil => cases h
    | cons e rest =>
      simp only [Option.ite_none_right_eq_some, Option.some.injEq] at h
      obtain ⟨rfl, rfl⟩ := h
      -- the last letter of the word ends the value, any other leaves that to come
      cases rest with
      | nil =>
        cases hb
        exact closed_snoc hcloser
      | cons f rest => exact ⟨b, hb, hcloser⟩
  | number skim scan =>
    simp only at h
    split at h
    · rename_i scan' hscan
      cases h
      exact fun hcomplete => closed_snoc (Or.inr (isDigit_of_more hscan hcomplete))
    · rename_i hended
      obtain ⟨v, -, hv⟩ := Option.bind_eq_some_iff.1 h
      exact ending_afterValue (hpast (isComplete_of_ended hended)) hv
    · cases h
  | text skim scan =>
    simp only at h
    split at h
    · cases h
      trivial
    · rename_i hended
      cases h
      exact closed_snoc (Or.inl (by simp [eq_quote_of_ended hended]))
    · cases h
  | after v => exact ending_afterValue hpast h

/-- **A whole text** keeps it. -/
theorem ending_run (hpast : Ending past m.mode) (h : run d m cs = some m') :
    Ending (past ++ cs) m'.mode := by
  induction cs generalizing past m with
  | nil =>
    cases h
    rwa [List.append_nil]
  | cons c cs ih =>
    obtain ⟨next, hnext, hrest⟩ := Option.bind_eq_some_iff.1 h
    rw [List.append_cons]
    exact ih (ending_step hpast hnext) hrest

/-- What has been read ends with a closer. -/
theorem closed_of_finish {v : Json} (hpast : Ending past m.mode) (h : finish m = .ok v) :
    Closed past := by
  obtain ⟨stack, mode⟩ := m
  cases mode with
  | after v => exact hpast
  | number skim scan =>
    refine hpast ?_
    by_contra hcomplete
    simp [finish, hcomplete] at h
  | _ => cases h

/-- A value begins with an opener, after gaps. -/
theorem exists_opener {shape : Shape} {v : Json} (hrun : run d ⟨stack, .value shape⟩ cs = some m)
    (h : finish m = .ok v) :
    ∃ gaps c rest, cs = gaps ++ c :: rest ∧ IsOpener c ∧ ∀ c ∈ gaps, isGap c = true := by
  induction cs with
  | nil =>
    cases hrun
    cases h
  | cons c cs ih =>
    obtain ⟨next, hnext, hrest⟩ := Option.bind_eq_some_iff.1 hrun
    simp only [step] at hnext
    split_ifs at hnext with hgap
    · cases hnext
      obtain ⟨gaps, b, rest, rfl, hb, hgaps⟩ := ih hrest
      exact ⟨c :: gaps, b, rest, rfl, hb, List.forall_mem_cons.2 ⟨hgap, hgaps⟩⟩
    · exact ⟨[], c, cs, rfl, (opener_of_beginValue hnext).1, List.forall_mem_nil _⟩

/-! ## Texts that are read -/

/-- What begins with an opener and ends with a closer is a payload. -/
theorem payload_of_ends {first last : Char} {core : List Char} (hfirst : core.head? = some first)
    (hopener : IsOpener first) (hlast : core.getLast? = some last) (hcloser : IsCloser last) :
    Text.Payload core where
  begins := ⟨first, hfirst, hopener.plain.1⟩
  ends := ⟨last, hlast, hcloser.plain.1⟩
  not_opened := by
    rintro ⟨rest, rfl⟩
    cases hfirst
    exact hopener.plain.2.1 rfl
  not_closed := by
    rintro ⟨front, rfl⟩
    rw [List.getLast?_append] at hlast
    cases hlast
    exact hcloser.plain.2 rfl
  not_named := by
    rintro name hname ⟨rest, rfl⟩
    cases hname with
    | cons hletter _ =>
      cases hfirst
      obtain ⟨-, -, hlower, hupper⟩ := hopener.plain
      rcases List.mem_cons.1 hletter with hletter | hletter
      · exact hlower hletter
      · exact hupper (List.mem_singleton.1 hletter)

/-- Between gaps a text begins with an opener and ends with a closer. -/
theorem exists_core {shape : Shape} {text : String} {v : Json}
    (h : readWithin d shape text = .ok v) : ∃ front core rest,
      text.toList = front ++ core ++ rest ∧ Text.Payload core ∧
      (∀ c ∈ front, isGap c = true) ∧ ∀ c ∈ rest, isGap c = true := by
  unfold readWithin at h
  split at h
  · rename_i m hrun
    have hstart : Ending [] (Mode.value shape) := trivial
    obtain ⟨front, first, after, hfront, hopener, hfrontGaps⟩ := exists_opener hrun h
    obtain ⟨before, last, rest, hrest, hcloser, hrestGaps⟩ :=
      closed_of_finish (ending_run hstart hrun) h
    have hlast : last ∉ front := by
      intro hmem
      have hblank := isBlank_of_isGap (hfrontGaps last hmem)
      rw [hcloser.plain.1] at hblank
      cases hblank
    have hcut : front ++ first :: after = before ++ [last] ++ rest := by
      rw [← hfront, ← List.append_cons]
      exact hrest
    -- the closer is no gap, so that it does not stand among those at the front
    rcases List.append_eq_append_iff.1 hcut with ⟨core, hcore, hafter⟩ | ⟨tail, rfl, -⟩
    · cases core with
      | nil =>
        rw [List.append_nil] at hcore
        exact absurd (hcore ▸ by simp) hlast
      | cons c core =>
        cases hafter
        refine ⟨front, first :: core, rest, ?_, payload_of_ends rfl hopener ?_ hcloser,
          hfrontGaps, hrestGaps⟩
        · rw [hfront, List.append_assoc]
          rfl
        · have hend := congrArg List.getLast? hcore
          simpa using hend.symm
    · exact absurd (by simp) hlast
  · cases h

/-- **A text that the reader accepts** is a payload once it is trimmed. -/
theorem payload_of_readWithin {shape : Shape} {text : String} {v : Json}
    (h : readWithin d shape text = .ok v) : Text.Payload (Text.trim text.toList) := by
  obtain ⟨front, core, rest, htext, hcore, hfront, hrest⟩ := exists_core h
  rw [htext, hcore.toTrimmed.trim_enclosed (fun c hc => isBlank_of_isGap (hfront c hc))
    fun c hc => isBlank_of_isGap (hrest c hc)]
  exact hcore

end

end Swimlane.Json
