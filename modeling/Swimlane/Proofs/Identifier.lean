/-
  Swimlane — the shape of identifiers and the freshness of names.

  * `Stem cs`: what a cut makes an identifier of; `Shape cs`: the shape of
    identifiers, `IsIdentifier s` on strings.
  * `isIdentifier_slug`: a slug is an identifier if its fallback is one, and
    `slug_of_isIdentifier`: an identifier is its own slug.
  * `numbered_injective`: names with different numerals differ, although the
    stem is cut to make room for the numeral.
  * `fresh_spec`: a fresh name is the cut name if that is free, and otherwise
    the first of its numbered forms that is free.  Hence it is not in use
    (`fresh_notMem`), and it is an identifier if it was made from a stem
    (`isIdentifier_fresh`).
  * `Coined used extra name id`: a fresh name, when some more names may have been
    taken into use before it was made.

  The numeral of a fresh name is at most the number of names in use plus one.
  It fits into an identifier as long as there are fewer than `maxNumeral` names
  in use, which no list of names in a memory of 64-bit addresses exceeds.
-/
import Mathlib.Data.List.Nodup
import Mathlib.Data.Finset.Card
import Swimlane.Identifier
import Swimlane.Proofs.Text.Plain

namespace Swimlane.Identifier

open Text

/-! ## Shapes -/

/-- The beginning of an identifier: usable characters, the first of which is no
    underscore. -/
structure Stem (cs : List Char) : Prop where
  ne_nil : cs ≠ []
  chars : ∀ c ∈ cs, isIdChar c = true
  head : cs.head? ≠ some '_'

/-- The shape of identifiers: one to forty characters of `[a-z0-9_-]`, with no
    underscore at either end. -/
structure Shape (cs : List Char) : Prop extends Stem cs where
  length_le : cs.length ≤ maxLength
  last : cs.getLast? ≠ some '_'

/-- A text that is an identifier. -/
def IsIdentifier (s : String) : Prop := Shape s.toList

theorem stem_iff {cs : List Char} :
    Stem cs ↔ (!cs.isEmpty && (cs.all isIdChar && cs.head? != some '_')) = true := by
  simp only [Bool.and_eq_true, Bool.not_eq_true', List.isEmpty_eq_false_iff, List.all_eq_true,
    bne_iff_ne]
  exact ⟨fun ⟨h₁, h₂, h₃⟩ => ⟨h₁, h₂, h₃⟩, fun ⟨h₁, h₂, h₃⟩ => ⟨h₁, h₂, h₃⟩⟩

instance (cs : List Char) : Decidable (Stem cs) := decidable_of_iff _ stem_iff.symm

instance (cs : List Char) : Decidable (Shape cs) :=
  decidable_of_iff (Stem cs ∧ cs.length ≤ maxLength ∧ cs.getLast? ≠ some '_')
    ⟨fun ⟨h₁, h₂, h₃⟩ => ⟨h₁, h₂, h₃⟩, fun ⟨h₁, h₂, h₃⟩ => ⟨h₁, h₂, h₃⟩⟩

instance (s : String) : Decidable (IsIdentifier s) := inferInstanceAs (Decidable (Shape _))

theorem Stem.append {as bs : List Char} (h : Stem as) (hb : bs.all isIdChar = true) :
    Stem (as ++ bs) where
  ne_nil := by simp [h.ne_nil]
  chars c hc := (List.mem_append.1 hc).elim (h.chars c) (List.all_eq_true.1 hb c)
  head := by
    rw [List.head?_append_of_ne_nil _ h.ne_nil]
    exact h.head

theorem isIdChar_of_isDigit {c : Char} (h : c.isDigit = true) : isIdChar c = true := by
  simp only [Char.isDigit, Bool.and_eq_true, decide_eq_true_eq, UInt32.le_iff_toNat_le,
    ge_iff_le] at h
  have hlow : 48 ≤ c.toNat := h.1
  have hhigh : c.toNat ≤ 57 := h.2
  simp [isIdChar, hlow, hhigh]

/-- A numeral consists of usable characters. -/
theorem isIdChar_toDigits {k : ℕ} {c : Char} (h : c ∈ Nat.toDigits 10 k) : isIdChar c = true :=
  isIdChar_of_isDigit (Nat.isDigit_of_mem_toDigits (by decide) (by decide) h)

/-- **A stem with a numeral** is an identifier if it is short enough. -/
theorem Stem.shape_numeral {cs : List Char} (h : Stem cs) {k : ℕ}
    (hlen : cs.length + ((Nat.toDigits 10 k).length + 1) ≤ maxLength) :
    Shape (cs ++ '_' :: Nat.toDigits 10 k) where
  toStem := by
    refine h.append (List.all_eq_true.2 ?_)
    intro c hc
    rcases List.mem_cons.1 hc with rfl | hc
    · decide
    · exact isIdChar_toDigits hc
  length_le := by simpa using hlen
  last := by
    rw [← List.singleton_append, List.getLast?_append_of_ne_nil _ (by simp),
      List.getLast?_append_of_ne_nil _ Nat.toDigits_ne_nil]
    exact fun hlast => Nat.underscore_not_in_toDigits (List.mem_of_getLast? hlast)

/-! ## Cuts -/

theorem cut_isPrefixOf (limit : ℕ) (cs : List Char) : cut limit cs <+: cs :=
  (dropEndWhile_isPrefixOf _ _).trans <| List.take_prefix _ _

theorem length_cut_le (limit : ℕ) (cs : List Char) : (cut limit cs).length ≤ limit :=
  (dropEndWhile_isPrefixOf _ _).length_le.trans (List.length_take_le _ _)

theorem getLast?_cut (limit : ℕ) (cs : List Char) : (cut limit cs).getLast? ≠ some '_' :=
  fun h => by cases (getLast?_dropEndWhile h).symm.trans (by decide : isUnderscore '_' = true)

theorem head?_cut {limit : ℕ} {cs : List Char} {c : Char} (hl : 0 < limit)
    (h : cs.head? = some c) (hc : c ≠ '_') : (cut limit cs).head? = some c := by
  refine head?_dropEndWhile ?_ (by simpa [isUnderscore] using hc)
  obtain ⟨n, rfl⟩ : ∃ n, limit = n + 1 := ⟨limit - 1, by omega⟩
  cases cs with
  | nil => cases h
  | cons d cs => simpa using h

/-- A cut stem is a stem. -/
theorem Stem.cut {cs : List Char} (h : Stem cs) {limit : ℕ} (hl : 0 < limit) :
    Stem (cut limit cs) := by
  obtain ⟨c, rest, rfl⟩ := List.exists_cons_of_ne_nil h.ne_nil
  have hc : c ≠ '_' := fun hc => h.head (by simp [hc])
  have hhead : (Identifier.cut limit (c :: rest)).head? = some c := head?_cut hl rfl hc
  refine ⟨?_, fun d hd => h.chars d ((cut_isPrefixOf _ _).subset hd), ?_⟩
  · rintro hnil
    rw [hnil] at hhead
    cases hhead
  · rw [hhead]
    simpa using hc

/-- A cut stem is an identifier. -/
theorem Stem.shape_cut {cs : List Char} (h : Stem cs) {limit : ℕ} (hl : 0 < limit)
    (hmax : limit ≤ maxLength) : Shape (Identifier.cut limit cs) where
  toStem := h.cut hl
  length_le := (length_cut_le _ _).trans hmax
  last := getLast?_cut _ _

theorem Shape.dropEndWhile_eq {cs : List Char} (h : Shape cs) :
    dropEndWhile isUnderscore cs = cs := by
  refine List.rdropWhile_eq_self_iff.2 fun hne hunderscore => h.last ?_
  rw [List.getLast?_eq_some_getLast hne]
  simpa [isUnderscore] using hunderscore

/-- An identifier needs no cut. -/
theorem Shape.cut_eq {cs : List Char} (h : Shape cs) : Identifier.cut maxLength cs = cs := by
  rw [Identifier.cut, List.take_of_length_le h.length_le, h.dropEndWhile_eq]

/-! ## Slugs -/

theorem isIdChar_idChar (c : Char) : isIdChar (idChar c) = true := by
  unfold idChar
  split
  · assumption
  · decide

/-- What is left of usable characters without the underscores at their ends. -/
theorem stem_trimWhile {cs : List Char} (h : trimWhile isUnderscore (cs.map idChar) ≠ []) :
    Stem (trimWhile isUnderscore (cs.map idChar)) := by
  refine ⟨h, fun c hc => ?_, fun hhead => ?_⟩
  · obtain ⟨d, -, rfl⟩ := List.mem_map.1 (mem_of_mem_trimWhile hc)
    exact isIdChar_idChar d
  · cases (head?_trimWhile hhead).symm.trans (by decide : isUnderscore '_' = true)

/-- The identifier of a text with a usable character. -/
theorem shape_slugChars {cs : List Char} (h : slugChars cs ≠ []) : Shape (slugChars cs) := by
  have hne : trimWhile isUnderscore ((lower cs).map idChar) ≠ [] := by
    intro hnil
    rw [slugChars, hnil] at h
    exact h (List.prefix_nil.1 (cut_isPrefixOf _ _))
  exact (stem_trimWhile hne).shape_cut (by decide) le_rfl

/-- **A slug is an identifier** if its fallback is one. -/
theorem isIdentifier_slug {fallback : String} (h : IsIdentifier fallback) (text : String) :
    IsIdentifier (slug fallback text) := by
  unfold slug
  by_cases hnil : (slugChars text.toList).isEmpty = true
  · rw [if_pos hnil]
    exact h
  · rw [if_neg hnil, IsIdentifier, String.toList_ofList]
    exact shape_slugChars fun hc => hnil (by simp [hc])

/-- A text with a usable character does not need the fallback. -/
theorem slug_of_slugChars {text : String} (h : slugChars text.toList ≠ []) (fallback : String) :
    slug fallback text = String.ofList (slugChars text.toList) := by
  rw [slug, if_neg (by simpa using h)]

/-- A slug begins like an identifier if its fallback does. -/
theorem stem_slug {fallback : String} (h : Stem fallback.toList) (text : String) :
    Stem (slug fallback text).toList := by
  by_cases hnil : slugChars text.toList = []
  · rwa [slug, if_pos (by simp [hnil])]
  · rw [slug_of_slugChars hnil, String.toList_ofList]
    exact (shape_slugChars hnil).toStem

theorem lowerChar_of_isIdChar {c : Char} (h : isIdChar c = true) : lowerChar c = [c] := by
  have hrange : c.toNat ≤ 122 ∧ ¬ (65 ≤ c.toNat ∧ c.toNat ≤ 90) := by
    simp only [isIdChar, Bool.or_eq_true, Bool.and_eq_true, decide_eq_true_eq] at h
    rcases h with ((h | h) | rfl) | rfl
    · omega
    · omega
    · decide
    · decide
  unfold lowerChar
  simp only [Bool.or_eq_true, Bool.and_eq_true, decide_eq_true_eq, bne_iff_ne]
  rw [if_neg (by omega), if_neg (by omega), if_neg (by omega)]

/-- An identifier is its own slug. -/
theorem Shape.slugChars_eq {cs : List Char} (h : Shape cs) : slugChars cs = cs := by
  have hlower : lower cs = cs := by
    rw [lower, List.flatMap_congr fun c hc => lowerChar_of_isIdChar (h.chars c hc)]
    exact List.flatMap_singleton' cs
  have hmap : cs.map idChar = cs := by
    have hkeep : ∀ c ∈ cs, idChar c = c := fun c hc => if_pos (h.chars c hc)
    rw [List.map_congr_left hkeep, List.map_id']
  obtain ⟨c, rest, hcs⟩ := List.exists_cons_of_ne_nil h.ne_nil
  have hdrop : cs.dropWhile isUnderscore = cs := by
    rw [hcs, List.dropWhile_cons_of_neg]
    simpa [isUnderscore, hcs] using h.head
  rw [slugChars, hlower, hmap, trimWhile, hdrop, h.dropEndWhile_eq, h.cut_eq]

/-- **An identifier is its own slug**, whatever the fallback. -/
theorem slug_of_isIdentifier {id : String} (h : IsIdentifier id) (fallback : String) :
    slug fallback id = id := by
  have hchars : slugChars id.toList = id.toList := h.slugChars_eq
  rw [slug_of_slugChars (by rw [hchars]; exact h.ne_nil), hchars, String.ofList_toList]

/-! ## Numbered names -/

/-- More names than any memory holds; numerals up to here fit into an
    identifier. -/
def maxNumeral : ℕ := Nat.pow 10 34

theorem toList_numbered (base : List Char) (k : ℕ) : (numbered base k).toList =
    cut (maxLength - ((Nat.toDigits 10 k).length + 1)) base ++ '_' :: Nat.toDigits 10 k := by
  simp [numbered]

/-- The numeral of a name is what follows its last underscore. -/
theorem takeWhile_reverse_numeral (cs : List Char) (k : ℕ) :
    (cs ++ '_' :: Nat.toDigits 10 k).reverse.takeWhile (· ≠ '_') =
      (Nat.toDigits 10 k).reverse := by
  rw [List.reverse_append, List.reverse_cons, List.append_assoc,
    List.takeWhile_append_of_pos fun c hc => ?_]
  · simp
  · have hne : c ≠ '_' := fun h => Nat.underscore_not_in_toDigits (List.mem_reverse.1 (h ▸ hc))
    simpa using hne

/-- **Names with different numerals differ.** -/
theorem numbered_injective (base : List Char) : Function.Injective (numbered base) := by
  intro j k h
  have hchars := congrArg (fun s => s.toList.reverse.takeWhile (· ≠ '_')) h
  simp only [toList_numbered, takeWhile_reverse_numeral] at hchars
  have hvalue := congrArg (fun ds => Nat.ofDigitChars 10 ds 0) (List.reverse_injective hchars)
  simpa using hvalue

theorem length_toDigits_le {k : ℕ} (hk : k ≤ maxNumeral) : (Nat.toDigits 10 k).length ≤ 35 :=
  (Nat.length_toDigits_le_iff (by decide) (by decide)).2
    (hk.trans_lt (Nat.pow_lt_pow_right (by decide) (by decide)))

/-- A numbered name is short, whatever it is made from. -/
theorem length_numbered_le (base : List Char) {k : ℕ} (hk : k ≤ maxNumeral) :
    (numbered base k).toList.length ≤ maxLength := by
  have hdigits := length_toDigits_le hk
  have hcut := length_cut_le (maxLength - ((Nat.toDigits 10 k).length + 1)) base
  rw [toList_numbered, List.length_append, List.length_cons]
  unfold maxLength at hcut ⊢
  omega

theorem Stem.isIdentifier_numbered {base : List Char} (h : Stem base) {k : ℕ}
    (hk : k ≤ maxNumeral) : IsIdentifier (numbered base k) := by
  have hdigits := length_toDigits_le hk
  rw [IsIdentifier, toList_numbered]
  refine (h.cut ?_).shape_numeral ?_
  · unfold maxLength
    omega
  · have hcut := length_cut_le (maxLength - ((Nat.toDigits 10 k).length + 1)) base
    unfold maxLength at hcut ⊢
    omega

/-! ## Fresh names -/

/-- No more numerals can be taken than there are names in use. -/
theorem le_card_of_taken {used : List String} {base : List Char} {n : ℕ}
    (h : ∀ k < n, numbered base (k + 1) ∈ used) : n ≤ used.toFinset.card := by
  have hinj : Function.Injective fun k => numbered base (k + 1) := fun j k hjk =>
    Nat.succ_injective (numbered_injective base hjk)
  have hsub : (Finset.range n).image (fun k => numbered base (k + 1)) ⊆ used.toFinset := by
    intro s hs
    obtain ⟨k, hk, rfl⟩ := Finset.mem_image.1 hs
    exact List.mem_toFinset.2 (h k (Finset.mem_range.1 hk))
  have hle := Finset.card_le_card hsub
  rwa [Finset.card_image_of_injective _ hinj, Finset.card_range] at hle

/-- One of the first numerals gives a free name. -/
theorem exists_numbered_notMem (used : List String) (base : List Char) :
    ∃ k < used.length + 1, numbered base (k + 1) ∉ used := by
  by_contra hall
  push Not at hall
  have hle := le_card_of_taken hall
  have hcard := List.toFinset_card_le used
  omega

/-- **What a fresh name is**: the cut name if that is free, and otherwise its
    first numbered form that is free. -/
theorem fresh_spec (used : List String) (name : String) :
    (fresh used name = String.ofList (cut maxLength name.toList) ∧ fresh used name ∉ used) ∨
      String.ofList (cut maxLength name.toList) ∈ used ∧
        ∃ k, 0 < k ∧ k ≤ used.toFinset.card + 1 ∧
          fresh used name = numbered (cut maxLength name.toList) k ∧ fresh used name ∉ used ∧
          ∀ j, 0 < j → j < k → numbered (cut maxLength name.toList) j ∈ used := by
  by_cases hplain : String.ofList (cut maxLength name.toList) ∈ used
  · refine Or.inr ⟨hplain, ?_⟩
    set base := cut maxLength name.toList with hbase
    have hfresh : fresh used name = (((List.range (used.length + 1)).find?
        fun k => !used.contains (numbered base (k + 1))).map fun k => numbered base (k + 1)).getD
          (String.ofList base) := by
      rw [fresh, ← hbase, if_pos (List.contains_iff_mem.2 hplain), List.find?_map]
      rfl
    cases hfind : (List.range (used.length + 1)).find?
        fun k => !used.contains (numbered base (k + 1)) with
    | none =>
      obtain ⟨k, hk, hfree⟩ := exists_numbered_notMem used base
      have hnone := List.find?_range_eq_none.1 hfind k hk
      simp [hfree] at hnone
    | some k =>
      obtain ⟨hfree, hk, hleast⟩ := List.find?_range_eq_some.1 hfind
      rw [hfind, Option.map_some, Option.getD_some] at hfresh
      have htaken : ∀ i < k, numbered base (i + 1) ∈ used := fun i hi => by
        simpa using hleast i hi
      refine ⟨k + 1, k.succ_pos, Nat.succ_le_succ (le_card_of_taken htaken), hfresh, ?_,
        fun j hj hjk => ?_⟩
      · simpa [hfresh] using hfree
      · obtain ⟨i, rfl⟩ : ∃ i, j = i + 1 := ⟨j - 1, by omega⟩
        exact htaken i (by omega)
  · have hfresh := fresh_of_free hplain
    exact Or.inl ⟨hfresh, hfresh ▸ hplain⟩

/-- **A fresh name is not in use.** -/
theorem fresh_notMem (used : List String) (name : String) : fresh used name ∉ used := by
  rcases fresh_spec used name with ⟨-, h⟩ | ⟨-, k, -, -, -, h, -⟩
  · exact h
  · exact h

/-- **A fresh name is an identifier** if it was made from a stem. -/
theorem isIdentifier_fresh {used : List String} {name : String} (h : Stem name.toList)
    (hused : used.toFinset.card < maxNumeral) : IsIdentifier (fresh used name) := by
  have hstem : Shape (cut maxLength name.toList) := h.shape_cut (by decide) le_rfl
  rcases fresh_spec used name with ⟨hfresh, -⟩ | ⟨-, k, -, hk, hfresh, -, -⟩
  · rw [hfresh, IsIdentifier, String.toList_ofList]
    exact hstem
  · rw [hfresh]
    exact hstem.toStem.isIdentifier_numbered (by omega)

/-- An identifier that is free stays as it is. -/
theorem fresh_of_notMem {used : List String} {id : String} (h : IsIdentifier id) (hid : id ∉ used) :
    fresh used id = id := by
  have hcut : String.ofList (cut maxLength id.toList) = id := by
    rw [h.cut_eq, String.ofList_toList]
  rw [fresh_of_free (by rwa [hcut]), hcut]

/-- A fresh name made from a stem is not empty. -/
theorem fresh_ne_empty {used : List String} {name : String} (h : Stem name.toList) :
    fresh used name ≠ "" := by
  intro hempty
  have hnil : (fresh used name).toList = [] := by rw [hempty, String.toList_empty]
  rcases fresh_spec used name with ⟨hfresh, -⟩ | ⟨-, k, -, -, hfresh, -, -⟩
  · rw [hfresh, String.toList_ofList] at hnil
    have hcut : Stem (cut maxLength name.toList) := h.cut (by decide)
    exact hcut.ne_nil hnil
  · rw [hfresh, toList_numbered] at hnil
    exact List.cons_ne_nil _ _ (List.append_eq_nil_iff.1 hnil).2

/-! ## Coined names -/

/-- A name made from `name` when fewer than `extra` more names than `used` were
    in use. -/
def Coined (used : List String) (extra : ℕ) (name id : String) : Prop :=
  ∃ more : List String, more.length < extra ∧ id = fresh (more ++ used) name

theorem coined_fresh (used : List String) {extra : ℕ} (h : 0 < extra) (name : String) :
    Coined used extra name (fresh used name) := ⟨[], h, rfl⟩

theorem Coined.of_append {used : List String} {extra : ℕ} {name id : String} (more : List String)
    (h : Coined (more ++ used) extra name id) : Coined used (extra + more.length) name id := by
  obtain ⟨others, hlen, rfl⟩ := h
  refine ⟨others ++ more, ?_, by rw [List.append_assoc]⟩
  rw [List.length_append]
  omega

theorem Coined.mono {used : List String} {extra extra' : ℕ} {name id : String}
    (h : Coined used extra name id) (hle : extra ≤ extra') : Coined used extra' name id := by
  obtain ⟨more, hlen, hid⟩ := h
  exact ⟨more, hlen.trans_le hle, hid⟩

/-- A coined name is not in use. -/
theorem Coined.notMem {used : List String} {extra : ℕ} {name id : String}
    (h : Coined used extra name id) : id ∉ used := by
  obtain ⟨more, -, rfl⟩ := h
  exact fun hmem => fresh_notMem _ _ (List.mem_append_right _ hmem)

/-- A coined name is an identifier if it was made from a stem. -/
theorem Coined.isIdentifier {used : List String} {extra : ℕ} {name id : String}
    (h : Coined used extra name id) (hname : Stem name.toList)
    (hused : used.length + extra ≤ maxNumeral) : IsIdentifier id := by
  obtain ⟨more, hlen, rfl⟩ := h
  refine isIdentifier_fresh hname ((List.toFinset_card_le _).trans_lt ?_)
  rw [List.length_append]
  omega

/-! ## Lists of written names -/

theorem assign_notMem (stem : String) (used : List String) (i : ℕ) (text : String) :
    assign stem used i text ∉ used := fresh_notMem _ _

theorem assign_ne_empty {stem : String} (h : Stem stem.toList) (used : List String) (i : ℕ)
    (text : String) : assign stem used i text ≠ "" := by
  refine fresh_ne_empty (stem_slug ?_ text)
  rw [String.toList_append, String.toList_append, List.append_assoc]
  refine h.append (List.all_eq_true.2 fun c hc => ?_)
  rcases List.mem_append.1 hc with hc | hc
  · obtain rfl : c = '_' := by simpa using hc
    decide
  · exact isIdChar_toDigits (k := i + 1) (by simpa using hc)

/-- **A written name whose slug is free** is named by its slug. -/
theorem assign_of_notMem {text : String} (h : slugChars text.toList ≠ []) {used : List String}
    (hused : slug "" text ∉ used) (stem : String) (i : ℕ) :
    assign stem used i text = slug "" text := by
  rw [assign, slug_of_slugChars h, ← slug_of_slugChars h ""]
  refine fresh_of_notMem ?_ hused
  rw [slug_of_slugChars h, IsIdentifier, String.toList_ofList]
  exact shape_slugChars h

/-- **An identifier that is free** is assigned to itself. -/
theorem assign_of_isIdentifier {id : String} (h : IsIdentifier id) {used : List String}
    (hid : id ∉ used) (stem : String) (i : ℕ) : assign stem used i id = id := by
  rw [assign, slug_of_isIdentifier h, fresh_of_notMem h hid]

/-- The identifier of a written name; its fallback is short, as the names of
    both lists of a candidate are. -/
theorem isIdentifier_assign {stem : String} (h : Stem stem.toList) (hlen : stem.toList.length ≤ 4)
    {used : List String} {i : ℕ} (hused : used.length < maxNumeral) (hi : i < maxNumeral)
    (text : String) : IsIdentifier (assign stem used i text) := by
  have hdigits : (Nat.toDigits 10 (i + 1)).length ≤ 35 := length_toDigits_le hi
  have hfallback : IsIdentifier (stem ++ "_" ++ toString (i + 1)) := by
    have hchars : (stem ++ "_" ++ toString (i + 1)).toList =
        stem.toList ++ '_' :: Nat.toDigits 10 (i + 1) := by simp
    rw [IsIdentifier, hchars]
    refine h.shape_numeral ?_
    unfold maxLength
    omega
  exact isIdentifier_fresh (isIdentifier_slug hfallback text).toStem
    ((List.toFinset_card_le used).trans_lt hused)

end Swimlane.Identifier
