/-
  Swimlane — a text is a document in one way.

  Reading goes from left to right, and the next character always says what
  follows: every part of the grammar is a run of characters of one class, and
  what comes after it begins with a character of another (`run_unique`).

  * `Spells.unique`, `Attributes.unique`, `Inscription.unique`: texts, attributes
    and tags can be read in one way.
  * `next`: what stands at the head of some characters, an end, a text or a tag.
  * `Content.unique`, `IsDocument.unique`: so can contents and documents.
  * `ReadsAs xml t`: the text is a document of the tree, and of no other.
-/
import Swimlane.Proofs.Xml.Grammar

namespace Swimlane.Xml

/-! ## Runs -/

/-- Two texts that begin with a run of the same class have the same run, if it
    goes on in neither. -/
theorem run_unique {p : Char → Bool} {as bs x y : List Char} (has : ∀ c ∈ as, p c = true)
    (hbs : ∀ c ∈ bs, p c = true) (hx : ∀ c ∈ x.head?, p c = false)
    (hy : ∀ c ∈ y.head?, p c = false) (h : as ++ x = bs ++ y) : as = bs ∧ x = y := by
  induction as generalizing bs with
  | nil =>
    cases bs with
    | nil => exact ⟨rfl, h⟩
    | cons b bs =>
      have hb := hbs b List.mem_cons_self
      rw [List.nil_append] at h
      rw [hx b (by simp [h])] at hb
      cases hb
  | cons a as ih =>
    cases bs with
    | nil =>
      have ha := has a List.mem_cons_self
      rw [List.nil_append] at h
      rw [hy a (by simp [← h])] at ha
      cases ha
    | cons b bs =>
      obtain ⟨rfl, htail⟩ := List.cons.inj h
      obtain ⟨rfl, hxy⟩ := ih (fun c hc => has c (List.mem_cons_of_mem _ hc))
        (fun c hc => hbs c (List.mem_cons_of_mem _ hc)) htail
      exact ⟨rfl, hxy⟩

/-- A text without a character goes up to the first occurrence of it. -/
theorem upTo_unique {d : Char} {as bs x y : List Char} (has : d ∉ as) (hbs : d ∉ bs)
    (h : as ++ d :: x = bs ++ d :: y) : as = bs ∧ x = y := by
  have hmem : ∀ {cs : List Char}, d ∉ cs → ∀ c ∈ cs, (c != d) = true := by
    intro cs hcs c hc
    exact bne_iff_ne.2 fun heq => hcs (heq ▸ hc)
  obtain ⟨hab, hxy⟩ := run_unique (hmem has) (hmem hbs) (by simp) (by simp) h
  exact ⟨hab, (List.cons.inj hxy).2⟩

theorem head?_append {p : Char → Prop} {as bs : List Char} (has : ∀ c ∈ as.head?, p c)
    (hbs : ∀ c ∈ bs.head?, p c) : ∀ c ∈ (as ++ bs).head?, p c := by
  cases as with
  | nil => exact hbs
  | cons a as => exact has

/-! ## Classes of characters -/

section
variable {c : Char}

theorem isNameChar_of_isSpace (h : isSpace c = true) : isNameChar c = false := by
  simp only [isSpace, Bool.or_eq_true, decide_eq_true_eq] at h
  rcases h with ((rfl | rfl) | rfl) | rfl <;> decide

theorem isNameChar_of_isNameStart (h : isNameStart c = true) : isNameChar c = true := by
  rw [isNameChar, h, Bool.true_or]

theorem isSpace_of_isNameStart (h : isNameStart c = true) : isSpace c = false := by
  cases hs : isSpace c with
  | false => rfl
  | true =>
    have hname := isNameChar_of_isNameStart h
    rw [isNameChar_of_isSpace hs] at hname
    cases hname

theorem isName_cons {name : List Char} (h : isName name = true) :
    ∃ c cs, name = c :: cs ∧ isNameStart c = true := by
  cases name with
  | nil => cases h
  | cons c cs => exact ⟨c, cs, rfl, (Bool.and_eq_true_iff.1 h).1⟩

theorem isNameChar_of_mem_isName {name : List Char} (h : isName name = true) :
    ∀ c ∈ name, isNameChar c = true := by
  cases name with
  | nil => exact fun c hc => by cases hc
  | cons c cs =>
    obtain ⟨hc, hcs⟩ := Bool.and_eq_true_iff.1 h
    exact List.forall_mem_cons.2 ⟨isNameChar_of_isNameStart hc, List.all_eq_true.1 hcs⟩

/-- A name does not begin with white space. -/
theorem head?_isName {name : List Char} (h : isName name = true) (x : List Char) :
    ∀ c ∈ (name ++ x).head?, isSpace c = false := by
  obtain ⟨d, ds, rfl, hd⟩ := isName_cons h
  intro c hc
  cases hc
  exact isSpace_of_isNameStart hd

/-- White space does not go on a name. -/
theorem head?_white {gap : List Char} (h : White gap) : ∀ c ∈ gap.head?, isNameChar c = false :=
  fun c hc => isNameChar_of_isSpace (h c (List.mem_of_mem_head? hc))

end

/-! ## Texts -/

section
variable {stop : Char} {s s' raw : List Char}

/-- The names of characters tell them apart, and end before the semicolon. -/
theorem entity_unique : ∀ e ∈ entities, ';' ∉ e.2 ∧ ∀ e' ∈ entities, e.2 = e'.2 → e.1 = e'.1 := by
  decide

/-- What could end a text is not in it. -/
theorem Spells.notMem (h : Spells stop s raw) {d : Char} (hd : d = '<' ∨ d = stop)
    (hentities : ∀ e ∈ entities, d ∉ '&' :: (e.2 ++ [';'])) : d ∉ raw := by
  induction h with
  | nil => exact List.not_mem_nil
  | @plain c s raw lt amp stops rest ih =>
    rw [List.mem_cons, not_or]
    refine ⟨?_, ih⟩
    rintro rfl
    exact hd.elim lt stops
  | @entity c name s raw known rest ih =>
    have hname := hentities _ known
    simp_all

theorem Spells.lt_notMem (h : Spells '<' s raw) : '<' ∉ raw := h.notMem (Or.inl rfl) (by decide)

theorem Spells.quote_notMem (h : Spells '"' s raw) : '"' ∉ raw := h.notMem (Or.inr rfl) (by decide)

/-- **A text is read in one way.** -/
theorem Spells.unique (h : Spells stop s raw) (h' : Spells stop s' raw) : s = s' := by
  induction h generalizing s' with
  | nil => cases h' with
    | nil => rfl
  | plain lt amp stops rest ih =>
    cases h' with
    | plain _ _ _ rest' => rw [ih rest']
    | entity => exact absurd rfl amp
  | @entity c name s raw known rest ih =>
    generalize hfull : '&' :: (name ++ ';' :: raw) = full at h'
    cases h' with
    | nil => cases hfull
    | plain lt amp => exact absurd (List.cons.inj hfull).1.symm amp
    | @entity c' name' s' raw' known' rest' =>
      obtain ⟨hsemicolon, hname⟩ := entity_unique _ known
      obtain ⟨heq, rfl⟩ := upTo_unique hsemicolon (entity_unique _ known').1 (List.cons.inj hfull).2
      rw [show c = c' from hname _ known' heq, ih rest']

end

/-! ## Tags -/

/-- No attribute begins here, after white space. -/
def Closes (x : List Char) : Prop :=
  ∃ gap c rest, x = gap ++ c :: rest ∧ White gap ∧ isSpace c = false ∧ isNameChar c = false

theorem closes_of_white {gap : List Char} (h : White gap) {c : Char} (hspace : isSpace c = false)
    (hname : isNameChar c = false) (x : List Char) : Closes (gap ++ c :: x) :=
  ⟨gap, c, x, rfl, h, hspace, hname⟩

/-- White space and a name are not the end of a tag. -/
theorem Closes.not_name {gap name x : List Char} (h : Closes (gap ++ (name ++ x)))
    (hgap : White gap) (hname : isName name = true) : False := by
  obtain ⟨gap', c, rest, heq, hgap', hspace, hc⟩ := h
  obtain ⟨-, hrest⟩ := run_unique hgap hgap' (head?_isName hname x) (by simpa using hspace) heq
  obtain ⟨d, ds, rfl, hd⟩ := isName_cons hname
  obtain ⟨rfl, -⟩ := List.cons.inj hrest
  rw [isNameChar_of_isNameStart hd] at hc
  cases hc

/-- The end of a tag does not go on a name. -/
theorem Closes.head? {x : List Char} (h : Closes x) : ∀ c ∈ x.head?, isNameChar c = false := by
  obtain ⟨gap, d, rest, rfl, hgap, -, hd⟩ := h
  exact head?_append (head?_white hgap) (by simpa using hd)

/-- **Attributes are read in one way**, up to the end of the tag. -/
theorem Attributes.unique {as as' : List Attribute} {cs cs' x x' : List Char}
    (h : Attributes as cs) (h' : Attributes as' cs') (hx : Closes x) (hx' : Closes x')
    (heq : cs ++ x = cs' ++ x') : as = as' ∧ x = x' := by
  induction h generalizing as' cs' with
  | nil =>
    cases h' with
    | nil => exact ⟨rfl, heq⟩
    | cons apart gap_white named before_white after_white written rest =>
      rw [List.nil_append] at heq
      rw [heq, List.append_assoc, List.append_assoc] at hx
      exact (hx.not_name gap_white named).elim
  | @cons name value gap before after raw cs as apart gap_white named before_white after_white
      written rest ih =>
    cases h' with
    | nil =>
      rw [List.nil_append] at heq
      rw [← heq, List.append_assoc, List.append_assoc] at hx'
      exact (hx'.not_name gap_white named).elim
    | @cons name' value' gap' before' after' raw' cs' as' apart' gap_white' named' before_white'
        after_white' written' rest' =>
      simp only [List.append_assoc, List.cons_append] at heq
      obtain ⟨-, heq⟩ :=
        run_unique gap_white gap_white' (head?_isName named _) (head?_isName named' _) heq
      have hequals : isNameChar '=' = false := by decide
      obtain ⟨hname, heq⟩ := run_unique (isNameChar_of_mem_isName named)
        (isNameChar_of_mem_isName named') (head?_append (head?_white before_white) (by simpa))
        (head?_append (head?_white before_white') (by simpa)) heq
      obtain ⟨-, heq⟩ := run_unique before_white before_white' (by simp [isSpace])
        (by simp [isSpace]) heq
      obtain ⟨-, heq⟩ := run_unique after_white after_white' (by simp [isSpace])
        (by simp [isSpace]) (List.cons.inj heq).2
      obtain ⟨rfl, hcs⟩ :=
        upTo_unique written.quote_notMem written'.quote_notMem (List.cons.inj heq).2
      obtain rfl := String.toList_injective hname
      obtain rfl := String.toList_injective (written.unique written')
      obtain ⟨rfl, hrest⟩ := ih rest' hcs
      exact ⟨rfl, hrest⟩

theorem Attributes.head? {as : List Attribute} {cs : List Char} (h : Attributes as cs) :
    ∀ c ∈ cs.head?, isNameChar c = false := by
  cases h with
  | nil => simp
  | @cons _ _ gap _ _ _ _ _ apart gap_white =>
    obtain ⟨d, ds, rfl⟩ := List.exists_cons_of_ne_nil apart
    have hd : isNameChar d = false := isNameChar_of_isSpace (gap_white d List.mem_cons_self)
    simpa using hd

/-- **A tag is read in one way**, up to its last character or characters. -/
theorem Inscription.unique {tag tag' : String} {as as' : List Attribute} {cs cs' x x' : List Char}
    (h : Inscription tag as cs) (h' : Inscription tag' as' cs') {c c' : Char}
    (hc : c = '/' ∨ c = '>') (hc' : c' = '/' ∨ c' = '>') (heq : cs ++ c :: x = cs' ++ c' :: x') :
    tag = tag' ∧ as = as' ∧ c = c' ∧ x = x' := by
  have hends : ∀ {d : Char}, d = '/' ∨ d = '>' → isSpace d = false ∧ isNameChar d = false := by
    rintro d (rfl | rfl) <;> decide
  obtain ⟨named, written, -, gap_white⟩ := h
  obtain ⟨named', written', -, gap_white'⟩ := h'
  have hcloses := closes_of_white gap_white (hends hc).1 (hends hc).2 x
  have hcloses' := closes_of_white gap_white' (hends hc').1 (hends hc').2 x'
  simp only [List.append_assoc] at heq
  obtain ⟨htag, heq⟩ := run_unique (isNameChar_of_mem_isName named)
    (isNameChar_of_mem_isName named') (head?_append written.head? hcloses.head?)
    (head?_append written'.head? hcloses'.head?) heq
  obtain ⟨rfl, heq⟩ := written.unique written' hcloses hcloses' heq
  obtain ⟨-, heq⟩ := run_unique gap_white gap_white' (by simpa using (hends hc).1)
    (by simpa using (hends hc').1) heq
  obtain ⟨rfl, rfl⟩ := List.cons.inj heq
  exact ⟨String.toList_injective htag, rfl, rfl, rfl⟩

/-! ## Contents -/

/-- What comes next. -/
inductive Next where
  /-- The end of the text or an end tag. -/
  | stop
  | text
  | tag
  deriving DecidableEq

/-- What stands at the head of the characters. -/
def next : List Char → Next
  | [] => .stop
  | '<' :: '/' :: _ => .stop
  | '<' :: _ => .tag
  | _ :: _ => .text

theorem next_text {s raw : List Char} (h : Spells '<' s raw) (hne : raw ≠ []) (x : List Char) :
    next (raw ++ x) = .text := by
  obtain ⟨c, cs, rfl⟩ := List.exists_cons_of_ne_nil hne
  have hc : c ≠ '<' := fun hc => h.lt_notMem (hc ▸ List.mem_cons_self)
  unfold next
  split <;> simp_all

theorem next_tag {tag : String} {as : List Attribute} {cs : List Char} (h : Inscription tag as cs)
    (x : List Char) : next ('<' :: (cs ++ x)) = .tag := by
  obtain ⟨named, -, -, -⟩ := h
  obtain ⟨c, ds, hname, hc⟩ := isName_cons named
  have hslash : c ≠ '/' := by
    rintro rfl
    cases hc
  rw [hname]
  simp [next, hslash]

theorem atTag_of_stop {r : List Char} (h : next r = .stop) : AtTag r := by
  intro c hc
  cases r with
  | nil => cases hc
  | cons d r =>
    cases hc
    by_contra hd
    simp [next, hd] at h

/-- A text up to a tag is read in one way. -/
theorem Spells.run_unique {s s' : String} {raw raw' x x' : List Char}
    (h : Spells '<' s.toList raw) (h' : Spells '<' s'.toList raw') (hx : AtTag x) (hx' : AtTag x')
    (heq : raw ++ x = raw' ++ x') : s = s' ∧ x = x' := by
  have hmem : ∀ {cs : List Char}, '<' ∉ cs → ∀ c ∈ cs, (c != '<') = true := by
    intro cs hcs c hc
    exact bne_iff_ne.2 fun heq => hcs (heq ▸ hc)
  have hhead : ∀ {cs : List Char}, AtTag cs → ∀ c ∈ cs.head?, (c != '<') = false := by
    intro cs hcs c hc
    rw [hcs c hc]
    rfl
  obtain ⟨rfl, hrest⟩ := Xml.run_unique (hmem h.lt_notMem) (hmem h'.lt_notMem) (hhead hx)
    (hhead hx') heq
  exact ⟨String.toList_injective (h.unique h'), hrest⟩

section
variable {ts ts' : List Tree} {cs cs' r r' : List Char}

/-- **Contents are read in one way**, up to the end or an end tag. -/
theorem Content.unique (h : Content ts cs) (h' : Content ts' cs') (hr : next r = .stop)
    (hr' : next r' = .stop) (heq : cs ++ r = cs' ++ r') : ts = ts' ∧ r = r' := by
  have hnext := congrArg next heq
  induction h generalizing ts' cs' r r' with
  | nil =>
    cases h' with
    | nil => exact ⟨rfl, heq⟩
    | run written nonempty =>
      rw [List.nil_append, hr, List.append_assoc, next_text written nonempty] at hnext
      cases hnext
    | empty inscribed =>
      rw [List.nil_append, hr, List.cons_append, List.append_assoc, next_tag inscribed] at hnext
      cases hnext
    | element inscribed =>
      rw [List.nil_append, hr, List.cons_append, List.append_assoc, next_tag inscribed] at hnext
      cases hnext
  | @run s raw rest ts written nonempty noClose whole after ih =>
    rw [List.append_assoc, next_text written nonempty] at hnext
    cases h' with
    | nil =>
      rw [List.nil_append, hr'] at hnext
      cases hnext
    | @run s' raw' rest' ts' written' nonempty' noClose' whole' after' =>
      rw [List.append_assoc, List.append_assoc] at heq
      obtain ⟨rfl, hrest⟩ := written.run_unique written'
        (head?_append whole (atTag_of_stop hr)) (head?_append whole' (atTag_of_stop hr')) heq
      obtain ⟨rfl, hr⟩ := ih after' hr hr' hrest (congrArg next hrest)
      exact ⟨rfl, hr⟩
    | empty inscribed =>
      rw [List.cons_append, List.append_assoc, next_tag inscribed] at hnext
      cases hnext
    | element inscribed =>
      rw [List.cons_append, List.append_assoc, next_tag inscribed] at hnext
      cases hnext
  | @empty tag attributes cs rest ts inscribed after ih =>
    rw [List.cons_append, List.append_assoc, next_tag inscribed] at hnext
    cases h' with
    | nil =>
      rw [List.nil_append, hr'] at hnext
      cases hnext
    | run written nonempty =>
      rw [List.append_assoc, next_text written nonempty] at hnext
      cases hnext
    | empty inscribed' after' =>
      simp only [List.cons_append, List.append_assoc, List.cons.injEq, true_and] at heq
      obtain ⟨rfl, rfl, -, heq⟩ := inscribed.unique inscribed' (Or.inl rfl) (Or.inl rfl) heq
      have hrest := (List.cons.inj heq).2
      obtain ⟨rfl, hr⟩ := ih after' hr hr' hrest (congrArg next hrest)
      exact ⟨rfl, hr⟩
    | element inscribed' =>
      simp only [List.cons_append, List.append_assoc, List.cons.injEq, true_and] at heq
      obtain ⟨-, -, hc, -⟩ := inscribed.unique inscribed' (Or.inl rfl) (Or.inr rfl) heq
      cases hc
  | @element tag attributes cs inner gap rest children ts inscribed between gap_white after ihInner
      ihAfter =>
    rw [List.cons_append, List.append_assoc, next_tag inscribed] at hnext
    cases h' with
    | nil =>
      rw [List.nil_append, hr'] at hnext
      cases hnext
    | run written nonempty =>
      rw [List.append_assoc, next_text written nonempty] at hnext
      cases hnext
    | empty inscribed' =>
      simp only [List.cons_append, List.append_assoc, List.cons.injEq, true_and] at heq
      obtain ⟨-, -, hc, -⟩ := inscribed.unique inscribed' (Or.inr rfl) (Or.inl rfl) heq
      cases hc
    | @element tag' attributes' cs' inner' gap' rest' children' ts' inscribed' between' gap_white'
        after' =>
      simp only [List.cons_append, List.append_assoc, List.cons.injEq, true_and] at heq
      obtain ⟨rfl, rfl, -, heq⟩ := inscribed.unique inscribed' (Or.inr rfl) (Or.inr rfl) heq
      obtain ⟨rfl, heq⟩ := ihInner between' rfl rfl heq (congrArg next heq)
      simp only [List.cons.injEq, true_and, List.append_cancel_left_eq] at heq
      obtain ⟨-, heq⟩ := Xml.run_unique gap_white gap_white' (by simp [isSpace])
        (by simp [isSpace]) heq
      have hrest := (List.cons.inj heq).2
      obtain ⟨rfl, hr⟩ := ihAfter after' hr hr' hrest (congrArg next hrest)
      exact ⟨rfl, hr⟩

end

/-! ## Documents -/

/-- A declaration ends in one place. -/
theorem Declaration.unique {cs cs' x x' : List Char} (h : Declaration cs) (h' : Declaration cs')
    (heq : cs ++ x = cs' ++ x') : x = x' := by
  obtain ⟨gap_white, written⟩ := h
  obtain ⟨gap_white', written'⟩ := h'
  have hmark : isSpace '?' = false ∧ isNameChar '?' = false := by decide
  simp only [List.append_assoc, List.append_cancel_left_eq] at heq
  have hcloses := fun x => closes_of_white gap_white hmark.1 hmark.2 ('>' :: x)
  have hcloses' := fun x => closes_of_white gap_white' hmark.1 hmark.2 ('>' :: x)
  obtain ⟨-, heq⟩ := written.unique written' (hcloses x) (hcloses' x') heq
  obtain ⟨-, heq⟩ := Xml.run_unique gap_white gap_white' (by simp [isSpace]) (by simp [isSpace]) heq
  exact (List.cons.inj (List.cons.inj heq).2).2

/-- **A text is a document of one tree only.** -/
theorem IsDocument.unique {t t' : Tree} {xml : String} (h : IsDocument t xml)
    (h' : IsDocument t' xml) : t = t' := by
  obtain ⟨opens, rooted, -⟩ := h
  generalize hxml : String.ofList _ = xml at h'
  obtain ⟨opens', rooted', -⟩ := h'
  have heq := opens.unique opens' (String.ofList_injective hxml)
  have hbody : _ ++ [] = _ ++ [] := congrArg (fun cs => cs ++ []) heq
  obtain ⟨hts, -⟩ := rooted.unique rooted' rfl rfl hbody
  exact (List.cons.inj hts).1

/-- The text is a document, of this tree and of no other. -/
def ReadsAs (xml : String) (t : Tree) : Prop := ∀ t', IsDocument t' xml ↔ t' = t

theorem IsDocument.readsAs {t : Tree} {xml : String} (h : IsDocument t xml) : ReadsAs xml t := by
  intro t'
  constructor
  · exact fun h' => h'.unique h
  · rintro rfl
    exact h

theorem ReadsAs.unique {t t' : Tree} {xml : String} (h : ReadsAs xml t) (h' : ReadsAs xml t') :
    t = t' := (h' t).1 ((h t).2 rfl)

end Swimlane.Xml
