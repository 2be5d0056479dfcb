/-
  Swimlane — JSON values are read back.

  The compact and the pretty form of a value differ in the gaps between its tokens and in
  nothing else.  The reader passes over gaps, so that it makes the same of both forms.

  * `spacedChars`: the text of a value with any gaps; `compactChars_eq`,
    `prettyChars_eq`: both forms are such texts.
  * `Nests p d v`: the value nests at most `d` deep, and its numbers are natural and have `p`.
  * `run_escapes`, `run_digits`: characters of texts and numbers are read one by one.
  * `run_spacedChars`: what the reader makes of a value in the middle of a text.
  * `read_spaced`: the text of an object is read as the object, if its numbers are in
    range, and is malformed otherwise; `read_compact`, `read_pretty`: so are both forms.
-/
import Swimlane.Json.Printer
import Swimlane.Json.Reader
import Mathlib.Data.List.Basic

namespace Swimlane.Json

/-! ## Gaps -/

/-- The gaps of a text. -/
structure Gaps where
  /-- The gap before each part of a level. -/
  line : ℕ → List Char
  /-- The gap after a colon. -/
  colon : List Char
  isGap_line : ∀ level, ∀ c ∈ line level, isGap c = true
  isGap_colon : ∀ c ∈ colon, isGap c = true

/-- No gaps. -/
def Gaps.none : Gaps where
  line _ := []
  colon := []
  isGap_line _ _ h := by cases h
  isGap_colon _ h := by cases h

theorem isGap_newline {level : ℕ} {c : Char} (h : c ∈ newline level) : isGap c = true := by
  rcases List.mem_cons.1 h with rfl | h
  · rfl
  · rw [List.eq_of_mem_replicate h]
    rfl

/-- Each part on a line of its own. -/
def Gaps.lines : Gaps where
  line := newline
  colon := [' ']
  isGap_line _ _ h := isGap_newline h
  isGap_colon _ h := by rw [List.mem_singleton.1 h]; rfl

mutual

/-- The text of a value with gaps. -/
def spacedChars (g : Gaps) (level : ℕ) : Json → List Char
  | .null => ['n', 'u', 'l', 'l']
  | .bool true => ['t', 'r', 'u', 'e']
  | .bool false => ['f', 'a', 'l', 's', 'e']
  | .num n => n.chars
  | .str s => quote s
  | .arr [] => ['[', ']']
  | .arr (v :: items) =>
    '[' :: (g.line (level + 1) ++ (spacedChars g (level + 1) v ++
      (spacedItems g (level + 1) items ++ (g.line level ++ [']']))))
  | .obj [] => ['\x7b', '\x7d']
  | .obj ((k, v) :: fields) =>
    '\x7b' :: (g.line (level + 1) ++ (quote k ++ ':' :: (g.colon ++
      (spacedChars g (level + 1) v ++
        (spacedFields g (level + 1) fields ++ (g.line level ++ ['\x7d']))))))

def spacedItems (g : Gaps) (level : ℕ) : List Json → List Char
  | [] => []
  | v :: rest => ',' :: (g.line level ++ (spacedChars g level v ++ spacedItems g level rest))

def spacedFields (g : Gaps) (level : ℕ) : List (String × Json) → List Char
  | [] => []
  | (k, v) :: rest =>
    ',' :: (g.line level ++ (quote k ++ ':' :: (g.colon ++
      (spacedChars g level v ++ spacedFields g level rest))))

end

mutual

/-- The compact form has no gaps. -/
theorem compactChars_eq (level : ℕ) : ∀ v : Json, compactChars v = spacedChars .none level v
  | .null => rfl
  | .bool true => rfl
  | .bool false => rfl
  | .num _ => rfl
  | .str _ => rfl
  | .arr [] => rfl
  | .arr (v :: items) => by
    rw [compactChars, compactItems_eq (level + 1) items v, compactChars_eq (level + 1) v,
      spacedChars]
    simp [Gaps.none]
  | .obj [] => rfl
  | .obj ((k, v) :: fields) => by
    rw [compactChars, compactFields_eq (level + 1) fields k v, compactChars_eq (level + 1) v,
      spacedChars]
    simp [Gaps.none]

theorem compactItems_eq (level : ℕ) : ∀ (items : List Json) (v : Json),
    compactItems (v :: items) = compactChars v ++ spacedItems .none level items
  | [], v => by rw [compactItems, spacedItems, List.append_nil]
  | w :: items, v => by
    rw [compactItems, compactItems_eq level items w, compactChars_eq level w, spacedItems]
    rfl

theorem compactFields_eq (level : ℕ) : ∀ (fields : List (String × Json)) (k : String) (v : Json),
    compactFields ((k, v) :: fields) =
      quote k ++ ':' :: (compactChars v ++ spacedFields .none level fields)
  | [], k, v => by rw [compactFields, spacedFields, List.append_nil]
  | (k', w) :: fields, k, v => by
    rw [compactFields, compactFields_eq level fields k' w, compactChars_eq level w, spacedFields]
    simp [Gaps.none]

end

mutual

/-- The pretty form has each part on a line of its own. -/
theorem prettyChars_eq (level : ℕ) : ∀ v : Json, prettyChars level v = spacedChars .lines level v
  | .null => rfl
  | .bool true => rfl
  | .bool false => rfl
  | .num _ => rfl
  | .str _ => rfl
  | .arr [] => rfl
  | .arr (v :: items) => by
    rw [prettyChars, prettyChars_eq (level + 1) v, prettyItems_eq (level + 1) items, spacedChars]
    simp [Gaps.lines]
  | .obj [] => rfl
  | .obj ((k, v) :: fields) => by
    rw [prettyChars, prettyChars_eq (level + 1) v, prettyFields_eq (level + 1) fields, spacedChars]
    simp [Gaps.lines]

theorem prettyItems_eq (level : ℕ) : ∀ items : List Json,
    prettyItems level items = spacedItems .lines level items
  | [] => rfl
  | v :: items => by
    rw [prettyItems, prettyChars_eq level v, prettyItems_eq level items, spacedItems]
    simp [Gaps.lines]

theorem prettyFields_eq (level : ℕ) : ∀ fields : List (String × Json),
    prettyFields level fields = spacedFields .lines level fields
  | [] => rfl
  | (k, v) :: fields => by
    rw [prettyFields, prettyChars_eq level v, prettyFields_eq level fields, spacedFields]
    simp [Gaps.lines]

end

/-! ## Reading on -/

section
variable {d : ℕ} {m m' : Machine} {stack : List Frame} {c : Char} {cs rest : List Char}

theorem run_cons (h : step d m c = some m') : run d m (c :: cs) = run d m' cs := by
  rw [run, h, Option.bind_some]

/-- The modes between two tokens. -/
def Mode.Between : Mode → Prop
  | .value _ | .firstItem _ | .firstKey _ | .key _ _ | .colon _ _ _ | .after _ => True
  | .keyText _ _ _ | .word _ _ | .number _ _ | .text _ _ => False

/-- Gaps between two tokens are passed over. -/
theorem run_gap (mode : Mode) (hmode : mode.Between) (h : ∀ c ∈ cs, isGap c = true) :
    run d ⟨stack, mode⟩ (cs ++ rest) = run d ⟨stack, mode⟩ rest := by
  have hstep : ∀ c, isGap c = true → step d ⟨stack, mode⟩ c = some ⟨stack, mode⟩ := by
    intro c hc
    cases mode <;> first | exact absurd hmode id | simp [step, afterValue, hc]
  induction cs with
  | nil => rfl
  | cons c cs ih =>
    obtain ⟨hc, hcs⟩ := List.forall_mem_cons.1 h
    rw [List.cons_append, run_cons (hstep c hc), ih hcs]

/-! ## Texts -/

theorem hexValue?_hexDigit {n : ℕ} (h : n < 16) :
    hexValue? (hexDigit n) = some n ∧ (hexDigit n).utf8Size = 1 := by
  revert n
  decide

theorem step_hexDigit {n bytes value : ℕ} {chars : List Char} (hn : n < 16) (hbytes : bytes < 3) :
    TextScan.step false ⟨chars, .code .none bytes value false⟩ (hexDigit n) =
      .more ⟨chars, .code .none (bytes + 1) (16 * value + n) false⟩ := by
  obtain ⟨hdigit, hsize⟩ := hexValue?_hexDigit hn
  have hmore : bytes + 1 < 4 := by omega
  simp [TextScan.step, hdigit, hsize, hmore]

/-- The last digit of a code completes it. -/
theorem step_hexDigit_last {n value : ℕ} {chars : List Char} (hn : n < 16)
    (hcontrol : 16 * value + n < 0x20) :
    TextScan.step false ⟨chars, .code .none 3 value false⟩ (hexDigit n) =
      .more { chars := Char.ofNat (16 * value + n) :: chars } := by
  obtain ⟨hdigit, hsize⟩ := hexValue?_hexDigit hn
  have hlow : isLow (16 * value + n) = false := by simp [isLow]; omega
  have hhigh : isHigh (16 * value + n) = false := by simp [isHigh]; omega
  simp [TextScan.step, TextScan.takeCode?, hdigit, hsize, hlow, hhigh]

section
variable {mode : TextScan → Mode} (hmode : ∀ scan scan' c, scan.step false c = .more scan' →
  step d ⟨stack, mode scan⟩ c = some ⟨stack, mode scan'⟩)
include hmode

/-- An escaped character is read back. -/
theorem run_escapeChar (c : Char) (chars : List Char) :
    run d ⟨stack, mode { chars }⟩ (escapeChar c ++ rest) =
      run d ⟨stack, mode { chars := c :: chars }⟩ rest := by
  have hrun : ∀ {scan scan' : TextScan} {c : Char} {rest : List Char},
      scan.step false c = .more scan' →
      run d ⟨stack, mode scan⟩ (c :: rest) = run d ⟨stack, mode scan'⟩ rest :=
    fun h => run_cons (hmode _ _ _ h)
  unfold escapeChar
  split
  · exact (hrun rfl).trans (hrun rfl)
  · exact (hrun rfl).trans (hrun rfl)
  · exact (hrun rfl).trans (hrun rfl)
  · exact (hrun rfl).trans (hrun rfl)
  · exact (hrun rfl).trans (hrun rfl)
  · exact (hrun rfl).trans (hrun rfl)
  · exact (hrun rfl).trans (hrun rfl)
  · rename_i hquote hbackslash _ _ _ _ _
    split
    · -- a control character is written as its code
      rename_i hcontrol
      have hcode : 16 * (c.toNat / 16) + c.toNat % 16 = c.toNat := by omega
      have hfirst : TextScan.step false ⟨chars, .code .none 2 0 false⟩ (hexDigit (c.toNat / 16)) =
          .more ⟨chars, .code .none 3 (c.toNat / 16) false⟩ := by
        rw [step_hexDigit (by omega) (by decide), Nat.mul_zero, Nat.zero_add]
      have hlast : TextScan.step false ⟨chars, .code .none 3 (c.toNat / 16) false⟩
          (hexDigit (c.toNat % 16)) = .more { chars := c :: chars } := by
        rw [step_hexDigit_last (by omega) (by omega), hcode, Char.ofNat_toNat]
      exact (hrun rfl).trans ((hrun rfl).trans ((hrun rfl).trans ((hrun rfl).trans
        ((hrun hfirst).trans (hrun hlast)))))
    · rename_i hplain
      refine hrun ?_
      rw [TextScan.step, if_neg fun h => hquote h, if_neg fun h => hbackslash h, if_neg hplain]

/-- Escaped characters are read back. -/
theorem run_escapes (cs chars : List Char) :
    run d ⟨stack, mode { chars }⟩ (cs.flatMap escapeChar ++ rest) =
      run d ⟨stack, mode { chars := cs.reverse ++ chars }⟩ rest := by
  induction cs generalizing chars with
  | nil => rfl
  | cons c cs ih =>
    rw [List.flatMap_cons, List.append_assoc, run_escapeChar hmode, ih, List.reverse_cons,
      List.append_assoc]
    rfl

end

/-- A text in quotes is read as a value. -/
theorem run_quote (s : String) : run d ⟨stack, .value .full⟩ (quote s ++ rest) =
    run d ⟨stack, .after (.str s)⟩ rest := by
  have hmode : ∀ (scan scan' : TextScan) (c : Char), scan.step false c = .more scan' →
      step d ⟨stack, .text false scan⟩ c = some ⟨stack, .text false scan'⟩ := by
    intro scan scan' c h
    simp only [step, h]
  have hopen : step d ⟨stack, .value .full⟩ '"' = some ⟨stack, .text false {}⟩ := rfl
  have hclose : step d ⟨stack, .text false { chars := s.toList.reverse }⟩ '"' =
      some ⟨stack, .after (.str s)⟩ := by
    simp [step, TextScan.step, TextScan.text]
  rw [quote, List.append_assoc, List.cons_append, run_cons hopen, run_escapes hmode,
    List.append_nil, List.singleton_append, run_cons hclose]

/-- A text in quotes is read as a key, the first one or a later one. -/
theorem run_key (s : String) {mode : Mode} {done : List (String × Json)}
    (hopen : step d ⟨stack, mode⟩ '"' = some ⟨stack, .keyText .full done {}⟩) :
    run d ⟨stack, mode⟩ (quote s ++ rest) = run d ⟨stack, .colon .full done s⟩ rest := by
  have hmode : ∀ (scan scan' : TextScan) (c : Char), scan.step false c = .more scan' →
      step d ⟨stack, .keyText .full done scan⟩ c = some ⟨stack, .keyText .full done scan'⟩ := by
    intro scan scan' c h
    simp only [step, Shape.isSkimmed, h]
  have hclose : step d ⟨stack, .keyText .full done { chars := s.toList.reverse }⟩ '"' =
      some ⟨stack, .colon .full done s⟩ := by
    simp [step, TextScan.step, TextScan.text]
  rw [quote, List.append_assoc, List.cons_append, run_cons hopen, run_escapes hmode,
    List.append_nil, List.singleton_append, run_cons hclose]

/-! ## Numbers -/

/-- What ends a number: a gap, a comma or the end of an array or object. -/
def IsStop (c : Char) : Prop := isGap c = true ∨ c = ',' ∨ c = ']' ∨ c = '\x7d'

theorem exists_head_toDigits {n : ℕ} (h : 0 < n) :
    ∃ c cs, Nat.toDigits 10 n = c :: cs ∧ c ≠ '0' := by
  induction n using Nat.strongRecOn with
  | ind n ih =>
    rcases Nat.lt_or_ge n 10 with hn | hn
    · refine ⟨_, [], Nat.toDigits_of_lt_base hn, ?_⟩
      rw [Ne, Nat.digitChar_eq_zero]
      omega
    · obtain ⟨c, cs, hcs, hc⟩ := ih (n / 10) (by omega) (by omega)
      refine ⟨c, cs ++ [(n % 10).digitChar], ?_, hc⟩
      rw [Nat.toDigits_of_base_le (by decide) hn, hcs, List.cons_append]

/-- Further digits of a number. -/
theorem run_digits (h : ∀ c ∈ cs, c.isDigit = true) (whole : List Char) :
    run d ⟨stack, .number false { stage := .whole, whole }⟩ (cs ++ rest) =
      run d ⟨stack, .number false { stage := .whole, whole := cs.reverse ++ whole }⟩ rest := by
  induction cs generalizing whole with
  | nil => rfl
  | cons c cs ih =>
    obtain ⟨hc, hcs⟩ := List.forall_mem_cons.1 h
    have hstep : step d ⟨stack, .number false { stage := .whole, whole }⟩ c =
        some ⟨stack, .number false { stage := .whole, whole := c :: whole }⟩ := by
      simp [step, NumberScan.step, hc]
    rw [List.cons_append, run_cons hstep, ih hcs, List.reverse_cons, List.append_assoc]
    rfl

theorem ne_of_isDigit (h : c.isDigit = true) (c' : Char) (h' : c'.isDigit = false) : c ≠ c' := by
  rintro rfl
  rw [h] at h'
  cases h'

theorem isGap_of_isDigit (h : c.isDigit = true) : isGap c = false := by
  simp [isGap, ne_of_isDigit h ' ' rfl, ne_of_isDigit h '\t' rfl, ne_of_isDigit h '\n' rfl,
    ne_of_isDigit h '\r' rfl]

theorem beginValue_of_isDigit (h : c.isDigit = true) (shape : Shape) :
    beginValue d stack shape c = some ⟨stack, .number shape.isSkimmed
      { stage := if c = '0' then .zero else .whole, whole := [c] }⟩ := by
  have hbegin : NumberScan.begin? c =
      some { stage := if c = '0' then .zero else .whole, whole := [c] } := by
    by_cases hzero : c = '0' <;> simp [NumberScan.begin?, ne_of_isDigit h '-' rfl, h, hzero]
  simp [beginValue, ne_of_isDigit h '[' rfl, ne_of_isDigit h '\x7b' rfl, ne_of_isDigit h '"' rfl,
    ne_of_isDigit h 'n' rfl, ne_of_isDigit h 't' rfl, ne_of_isDigit h 'f' rfl, hbegin]

/-- A number ends before a stop, and is then judged. -/
theorem run_stop {scan : NumberScan} (hstage : scan.stage = .zero ∨ scan.stage = .whole)
    (hc : IsStop c) : run d ⟨stack, .number false scan⟩ (c :: cs) =
      if scan.number.numeral?.isSome then run d ⟨stack, .after (.num scan.number)⟩ (c :: cs)
      else none := by
  have hplain : c.isDigit = false ∧ c ≠ '.' ∧ c ≠ 'e' ∧ c ≠ 'E' := by
    have hgap : isGap c = true → c = ' ' ∨ c = '\t' ∨ c = '\n' ∨ c = '\r' := by
      simp [isGap, or_assoc]
    rcases hc with hc | rfl | rfl | rfl
    · rcases hgap hc with rfl | rfl | rfl | rfl <;> decide
    all_goals decide
  obtain ⟨hdigit, hpoint, hmark, hMark⟩ := hplain
  have hended : scan.step c = .ended := by
    rcases hstage with hstage | hstage <;>
      simp [NumberScan.step, NumberScan.afterDigits, hstage, hdigit, hpoint, hmark, hMark]
  simp only [run, step, hended, NumberScan.value?, Bool.false_or]
  split <;> rfl

theorem chars_ofNat (n : ℕ) : (Number.ofNat n).chars = Nat.toDigits 10 n := by
  simp [Number.chars, Number.ofNat]

/-- A natural number is read as a value, if it is in range. -/
theorem run_ofNat (n : ℕ) (hc : IsStop c) :
    run d ⟨stack, .value .full⟩ ((Number.ofNat n).chars ++ c :: cs) =
      if (Number.ofNat n).numeral?.isSome then run d ⟨stack, .after (.ofNat n)⟩ (c :: cs)
      else none := by
  have hdigits : ∀ c ∈ Nat.toDigits 10 n, c.isDigit = true :=
    fun c hc => Nat.isDigit_of_mem_toDigits (by decide) (by decide) hc
  have hbegin : ∀ {c : Char} {cs : List Char}, c.isDigit = true →
      run d ⟨stack, .value .full⟩ (c :: cs) = run d ⟨stack, .number false
        { stage := if c = '0' then .zero else .whole, whole := [c] }⟩ cs := by
    intro c cs h
    refine run_cons ?_
    simp only [step, isGap_of_isDigit h, beginValue_of_isDigit h]
    rfl
  rw [chars_ofNat]
  rcases Nat.eq_zero_or_pos n with rfl | hn
  · rw [Nat.toDigits_zero, List.singleton_append, hbegin rfl, run_stop (Or.inl rfl) hc]
    rfl
  · obtain ⟨head, tail, hcons, hhead⟩ := exists_head_toDigits hn
    rw [hcons] at hdigits ⊢
    obtain ⟨hfirst, htail⟩ := List.forall_mem_cons.1 hdigits
    have hnumber : NumberScan.number { stage := .whole, whole := tail.reverse ++ [head] } =
        Number.ofNat n := by
      simp [NumberScan.number, Number.ofNat, hcons]
    rw [List.cons_append, hbegin hfirst, if_neg hhead, run_digits htail, run_stop (Or.inr rfl) hc,
      hnumber]
    rfl

/-- The numbers of 64 bits are in range. -/
theorem numeral?_ofNat {n : ℕ} (h : n < UInt64.size) :
    (Number.ofNat n).numeral? = some (.natural n) := by
  have hvalue : readDigits 0 (Nat.toDigits 10 n) = n :=
    Nat.ofDigitChars_toDigits (by decide) (by decide)
  simp [Number.numeral?, Number.ofNat, hvalue, wordSize, h]

end

/-! ## Values -/

/-- A value that nests at most `depth` deep; its numbers are natural and have `p`. -/
inductive Nests (p : ℕ → Prop) : ℕ → Json → Prop
  | null {depth} : Nests p depth .null
  | bool {depth b} : Nests p depth (.bool b)
  | ofNat {depth n} (h : p n) : Nests p depth (.ofNat n)
  | str {depth s} : Nests p depth (.str s)
  | arr {depth items} (h : ∀ v ∈ items, Nests p depth v) : Nests p (depth + 1) (.arr items)
  | obj {depth fields} (h : ∀ f ∈ fields, Nests p depth f.2) : Nests p (depth + 1) (.obj fields)

/-- A field with a text, which may be missing. -/
theorem nests_optionalField {p : ℕ → Prop} {depth : ℕ} {key : String} {s : Option String} :
    ∀ f ∈ optionalField key (s.map .str), Nests p depth f.2 := by
  cases s with
  | none => exact fun f hf => by cases hf
  | some s => exact List.forall_mem_singleton.2 .str

/-- All numbers of a value are in range. -/
inductive InRange : Json → Prop
  | null : InRange .null
  | bool {b} : InRange (.bool b)
  | num {n : Number} (h : n.numeral?.isSome) : InRange (.num n)
  | str {s} : InRange (.str s)
  | arr {items} (h : ∀ v ∈ items, InRange v) : InRange (.arr items)
  | obj {fields} (h : ∀ f ∈ fields, InRange f.2) : InRange (.obj fields)

theorem inRange_num_iff {n : Number} : InRange (.num n) ↔ n.numeral?.isSome :=
  ⟨fun h => by cases h; assumption, .num⟩

theorem inRange_arr_iff {items : List Json} : InRange (.arr items) ↔ ∀ v ∈ items, InRange v :=
  ⟨fun h => by cases h; assumption, .arr⟩

theorem inRange_obj_iff {fields : List (String × Json)} :
    InRange (.obj fields) ↔ ∀ f ∈ fields, InRange f.2 :=
  ⟨fun h => by cases h; assumption, .obj⟩

/-- Natural numbers of 64 bits are in range. -/
theorem Nests.inRange {depth : ℕ} {v : Json} (h : Nests (· < UInt64.size) depth v) : InRange v := by
  induction h with
  | null => exact .null
  | bool => exact .bool
  | ofNat h => exact .num (by rw [numeral?_ofNat h]; rfl)
  | str => exact .str
  | arr _ ih => exact .arr ih
  | obj _ ih => exact .obj ih

/-- The rest of a text after a value: it begins with what may end a number. -/
def Stops (rest : List Char) : Prop := ∃ c cs, rest = c :: cs ∧ IsStop c

theorem stops_gap {cs rest : List Char} (h : ∀ c ∈ cs, isGap c = true) (hrest : Stops rest) :
    Stops (cs ++ rest) := by
  cases cs with
  | nil => exact hrest
  | cons c cs => exact ⟨c, cs ++ rest, rfl, Or.inl (h c List.mem_cons_self)⟩

open scoped Classical in
/-- In the middle of a text, the reader makes the value of its characters, unless a number
    is out of range. -/
def Reads (d depth : ℕ) (v : Json) (cs : List Char) : Prop :=
  ∀ (stack : List Frame) (rest : List Char), stack.length + depth ≤ d → Stops rest →
    run d ⟨stack, .value .full⟩ (cs ++ rest) =
      if InRange v then run d ⟨stack, .after v⟩ rest else none

section
variable {p : ℕ → Prop} {g : Gaps} {d depth level : ℕ} {stack : List Frame} {v : Json}
  {items : List Json} {fields : List (String × Json)}

theorem stops_items (level : ℕ) (items : List Json) (rest : List Char) :
    Stops (spacedItems g (level + 1) items ++ (g.line level ++ ']' :: rest)) := by
  cases items with
  | nil =>
    rw [spacedItems, List.nil_append]
    exact stops_gap (g.isGap_line level) ⟨']', rest, rfl, Or.inr (Or.inr (Or.inl rfl))⟩
  | cons v items => exact ⟨',', _, rfl, Or.inr (Or.inl rfl)⟩

theorem stops_fields (level : ℕ) (fields : List (String × Json)) (rest : List Char) :
    Stops (spacedFields g (level + 1) fields ++ (g.line level ++ '\x7d' :: rest)) := by
  cases fields with
  | nil =>
    rw [spacedFields, List.nil_append]
    exact stops_gap (g.isGap_line level) ⟨'\x7d', rest, rfl, Or.inr (Or.inr (Or.inr rfl))⟩
  | cons f fields => exact ⟨',', _, rfl, Or.inr (Or.inl rfl)⟩

open scoped Classical in
theorem run_items (hitems : ∀ w ∈ items, ∀ level, Reads d depth w (spacedChars g level w))
    (hdepth : stack.length + 1 + depth ≤ d) (v : Json) (done : List Json) (rest : List Char) :
    run d ⟨.arr .full done :: stack, .after v⟩
        (spacedItems g (level + 1) items ++ (g.line level ++ ']' :: rest)) =
      if ∀ w ∈ items, InRange w then
        run d ⟨stack, .after (.arr (done.reverse ++ v :: items))⟩ rest else none := by
  induction items generalizing v done with
  | nil =>
    have hclose : step d ⟨.arr .full done :: stack, .after v⟩ ']' =
        some ⟨stack, .after (.arr (v :: done).reverse)⟩ := rfl
    rw [spacedItems, List.nil_append, run_gap (.after v) trivial (g.isGap_line level),
      run_cons hclose, if_pos (List.forall_mem_nil _), List.reverse_cons]
  | cons w items ih =>
    obtain ⟨hw, hrest⟩ := List.forall_mem_cons.1 hitems
    have hcomma : step d ⟨.arr .full done :: stack, .after v⟩ ',' =
        some ⟨.arr .full (v :: done) :: stack, .value .full⟩ := rfl
    rw [spacedItems, List.cons_append, run_cons hcomma, List.append_assoc,
      run_gap (.value .full) trivial (g.isGap_line (level + 1)), List.append_assoc,
      hw (level + 1) (.arr .full (v :: done) :: stack) _ hdepth (stops_items level items rest),
      ih hrest, ← ite_and]
    refine if_congr List.forall_mem_cons.symm ?_ rfl
    rw [List.reverse_cons, List.append_assoc]
    rfl

open scoped Classical in
/-- A key and its value, with what is between them. -/
theorem run_field {mode : Mode} {done : List (String × Json)} {key : String} {cs rest : List Char}
    (hopen : step d ⟨stack, mode⟩ '"' = some ⟨stack, .keyText .full done {}⟩)
    (hv : Reads d depth v cs) (hdepth : stack.length + 1 + depth ≤ d) (hrest : Stops rest) :
    run d ⟨stack, mode⟩ (quote key ++ ':' :: (g.colon ++ (cs ++ rest))) =
      if InRange v then run d ⟨.obj .full done key :: stack, .after v⟩ rest else none := by
  have hcolon : step d ⟨stack, .colon .full done key⟩ ':' =
      some ⟨.obj .full done key :: stack, .value .full⟩ := rfl
  rw [run_key key hopen, run_cons hcolon, run_gap (.value .full) trivial g.isGap_colon]
  exact hv (.obj .full done key :: stack) rest hdepth hrest

open scoped Classical in
theorem run_fields (hfields : ∀ f ∈ fields, ∀ level, Reads d depth f.2 (spacedChars g level f.2))
    (hdepth : stack.length + 1 + depth ≤ d) (key : String) (v : Json)
    (done : List (String × Json)) (rest : List Char) :
    run d ⟨.obj .full done key :: stack, .after v⟩
        (spacedFields g (level + 1) fields ++ (g.line level ++ '\x7d' :: rest)) =
      if ∀ f ∈ fields, InRange f.2 then
        run d ⟨stack, .after (.obj (done.reverse ++ (key, v) :: fields))⟩ rest else none := by
  induction fields generalizing key v done with
  | nil =>
    have hclose : step d ⟨.obj .full done key :: stack, .after v⟩ '\x7d' =
        some ⟨stack, .after (.obj ((key, v) :: done).reverse)⟩ := rfl
    rw [spacedFields, List.nil_append, run_gap (.after v) trivial (g.isGap_line level),
      run_cons hclose, if_pos (List.forall_mem_nil _), List.reverse_cons]
  | cons f fields ih =>
    obtain ⟨k, w⟩ := f
    obtain ⟨hw, hrest⟩ := List.forall_mem_cons.1 hfields
    have hcomma : step d ⟨.obj .full done key :: stack, .after v⟩ ',' =
        some ⟨stack, .key .full ((key, v) :: done)⟩ := rfl
    rw [spacedFields, List.cons_append, run_cons hcomma, List.append_assoc,
      run_gap (.key .full _) trivial (g.isGap_line (level + 1)), List.append_assoc,
      List.cons_append, List.append_assoc, List.append_assoc,
      run_field rfl (hw (level + 1)) hdepth (stops_fields level fields rest), ih hrest, ← ite_and]
    refine if_congr ?_ ?_ rfl
    · rw [List.forall_mem_cons]
    · rw [List.reverse_cons, List.append_assoc]
      rfl

open scoped Classical in
/-- An object is read as a value, whatever follows. -/
theorem run_object (hfields : ∀ f ∈ fields, ∀ level, Reads d depth f.2 (spacedChars g level f.2))
    (hdepth : stack.length + (depth + 1) ≤ d) (rest : List Char) :
    run d ⟨stack, .value .full⟩ (spacedChars g level (.obj fields) ++ rest) =
      if InRange (.obj fields) then run d ⟨stack, .after (.obj fields)⟩ rest else none := by
  have hopen : step d ⟨stack, .value .full⟩ '\x7b' = some ⟨stack, .firstKey .full⟩ := by
    have hroom : stack.length < d := by omega
    simp [step, isGap, beginValue, hroom]
  cases fields with
  | nil =>
    have hclose : step d ⟨stack, .firstKey .full⟩ '\x7d' = some ⟨stack, .after (.obj [])⟩ := rfl
    rw [spacedChars, List.cons_append, run_cons hopen, List.cons_append, run_cons hclose,
      if_pos (.obj (List.forall_mem_nil _)), List.nil_append]
  | cons f fields =>
    obtain ⟨k, v⟩ := f
    obtain ⟨hv, hrest⟩ := List.forall_mem_cons.1 hfields
    have hinside : stack.length + 1 + depth ≤ d := by omega
    rw [spacedChars, List.cons_append, run_cons hopen, List.append_assoc,
      run_gap (.firstKey .full) trivial (g.isGap_line (level + 1)), List.append_assoc,
      List.cons_append, List.append_assoc, List.append_assoc, List.append_assoc,
      List.append_assoc, List.singleton_append,
      run_field rfl (hv (level + 1)) hinside (stops_fields level fields rest),
      run_fields hrest hinside, ← ite_and]
    refine if_congr ?_ rfl rfl
    rw [inRange_obj_iff, List.forall_mem_cons]

/-- A value begins with a character that is no gap and ends no array. -/
theorem exists_head_spacedChars (h : Nests p depth v) (level : ℕ) : ∃ c cs,
    spacedChars g level v = c :: cs ∧ isGap c = false ∧ c ≠ ']' := by
  cases h with
  | null => exact ⟨_, _, rfl, by decide, by decide⟩
  | @bool _ b =>
    cases b
    · exact ⟨_, _, rfl, by decide, by decide⟩
    · exact ⟨_, _, rfl, by decide, by decide⟩
  | @ofNat _ n _ =>
    have hdigits : ∀ c ∈ Nat.toDigits 10 n, c.isDigit = true :=
      fun c hc => Nat.isDigit_of_mem_toDigits (by decide) (by decide) hc
    obtain ⟨c, cs, hcons⟩ := List.exists_cons_of_ne_nil (Nat.toDigits_ne_nil (b := 10) (n := n))
    have hc := hdigits c (by rw [hcons]; exact List.mem_cons_self)
    refine ⟨c, cs, ?_, isGap_of_isDigit hc, ne_of_isDigit hc ']' rfl⟩
    rw [Json.ofNat, spacedChars, chars_ofNat, hcons]
  | str => exact ⟨_, _, rfl, by decide, by decide⟩
  | @arr _ items =>
    cases items
    · exact ⟨_, _, rfl, by decide, by decide⟩
    · exact ⟨_, _, rfl, by decide, by decide⟩
  | @obj _ fields =>
    cases fields
    · exact ⟨_, _, rfl, by decide, by decide⟩
    · exact ⟨_, _, rfl, by decide, by decide⟩

open scoped Classical in
/-- An array is read as a value, whatever follows. -/
theorem run_array (hnests : ∀ w ∈ items, Nests p depth w)
    (hitems : ∀ w ∈ items, ∀ level, Reads d depth w (spacedChars g level w))
    (hdepth : stack.length + (depth + 1) ≤ d) (rest : List Char) :
    run d ⟨stack, .value .full⟩ (spacedChars g level (.arr items) ++ rest) =
      if InRange (.arr items) then run d ⟨stack, .after (.arr items)⟩ rest else none := by
  have hopen : step d ⟨stack, .value .full⟩ '[' = some ⟨stack, .firstItem .full⟩ := by
    have hroom : stack.length < d := by omega
    simp [step, isGap, beginValue, hroom]
  cases items with
  | nil =>
    have hclose : step d ⟨stack, .firstItem .full⟩ ']' = some ⟨stack, .after (.arr [])⟩ := rfl
    rw [spacedChars, List.cons_append, run_cons hopen, List.cons_append, run_cons hclose,
      if_pos (.arr (List.forall_mem_nil _)), List.nil_append]
  | cons v items =>
    obtain ⟨hv, hrest⟩ := List.forall_mem_cons.1 hitems
    have hfirst : ∀ rest : List Char,
        run d ⟨stack, .firstItem .full⟩ (spacedChars g (level + 1) v ++ rest) =
          run d ⟨.arr .full [] :: stack, .value .full⟩ (spacedChars g (level + 1) v ++ rest) := by
      intro rest
      obtain ⟨c, cs, hcons, hgap, hc⟩ := exists_head_spacedChars (g := g)
        (hnests v List.mem_cons_self) (level + 1)
      have hbegin : step d ⟨stack, .firstItem .full⟩ c =
          step d ⟨.arr .full [] :: stack, .value .full⟩ c := by
        simp [step, hgap, hc, Shape.item]
      rw [hcons, List.cons_append, run, run, hbegin]
    have hinside : stack.length + 1 + depth ≤ d := by omega
    rw [spacedChars, List.cons_append, run_cons hopen, List.append_assoc,
      run_gap (.firstItem .full) trivial (g.isGap_line (level + 1)), List.append_assoc, hfirst,
      List.append_assoc, List.append_assoc, List.singleton_append,
      hv (level + 1) (.arr .full [] :: stack) _ hinside (stops_items level items rest),
      run_items hrest hinside, ← ite_and]
    refine if_congr ?_ rfl rfl
    rw [inRange_arr_iff, List.forall_mem_cons]

open scoped Classical in
/-- **A value in the middle of a text** is read as the value. -/
theorem reads_spacedChars (h : Nests p depth v) (level : ℕ) :
    Reads d depth v (spacedChars g level v) := by
  induction h generalizing level with
  | null =>
    intro stack rest _ _
    rw [if_pos .null]
    rfl
  | @bool _ b =>
    intro stack rest _ _
    rw [if_pos .bool]
    cases b <;> rfl
  | @ofNat _ n _ =>
    intro stack rest _ hrest
    obtain ⟨c, cs, rfl, hc⟩ := hrest
    rw [Json.ofNat, spacedChars, run_ofNat n hc]
    exact if_congr inRange_num_iff.symm rfl rfl
  | str =>
    intro stack rest _ _
    rw [if_pos .str, spacedChars, run_quote]
  | arr hnests ih =>
    intro stack rest hdepth _
    exact run_array hnests ih hdepth rest
  | obj _ ih =>
    intro stack rest hdepth _
    exact run_object ih hdepth rest

open scoped Classical in
/-- **An object is read back** from its text, with any gaps and perhaps gaps at the end,
    unless a number is out of range. -/
theorem read_spaced (h : Nests p depth (.obj fields)) (hdepth : depth ≤ depthLimit)
    {tail : List Char} (htail : ∀ c ∈ tail, isGap c = true) :
    read (String.ofList (spacedChars g level (.obj fields) ++ tail)) =
      if InRange (.obj fields) then .ok (.obj fields) else .error .malformed := by
  have hrun : run depthLimit ⟨[], .value .full⟩ (spacedChars g level (.obj fields) ++ tail) =
      if InRange (.obj fields) then some ⟨[], .after (.obj fields)⟩ else none := by
    cases h with
    | @obj depth _ hfields =>
      have hroom : ([] : List Frame).length + (depth + 1) ≤ depthLimit := by
        rwa [List.length_nil, Nat.zero_add]
      rw [run_object (fun f hf level => reads_spacedChars (hfields f hf) level) hroom,
        ← List.append_nil tail, run_gap (.after _) trivial htail, run]
  rw [read, readAs, readWithin, String.toList_ofList, hrun]
  by_cases hrange : InRange (.obj fields)
  · rw [if_pos hrange, if_pos hrange]
    rfl
  · rw [if_neg hrange, if_neg hrange]

/-! ## Both forms -/

open scoped Classical in
theorem read_compact (h : Nests p depth (.obj fields)) (hdepth : depth ≤ depthLimit) :
    read (compact (.obj fields)) =
      if InRange (.obj fields) then .ok (.obj fields) else .error .malformed := by
  rw [compact, compactChars_eq 0, ← List.append_nil (spacedChars _ _ _)]
  exact read_spaced h hdepth fun c hc => by cases hc

open scoped Classical in
/-- The pretty form may end with a line break. -/
theorem read_pretty (h : Nests p depth (.obj fields)) (hdepth : depth ≤ depthLimit) :
    read (pretty (.obj fields) ++ "\n") =
      if InRange (.obj fields) then .ok (.obj fields) else .error .malformed := by
  have htail : pretty (.obj fields) ++ "\n" =
      String.ofList (spacedChars .lines 0 (.obj fields) ++ ['\n']) := by
    rw [pretty, prettyChars_eq 0, String.ofList_append]
  rw [htail]
  refine read_spaced h hdepth fun c hc => ?_
  rw [List.mem_singleton.1 hc]
  rfl

end

end Swimlane.Json
