/-
  Swimlane — how a cycle is found.

  The roles are filled in turn.  Each of them takes the first task that suits it and has
  not been taken by an earlier role; if there is none, no cycle is found.

  * `Suits`, `First`, `Lacks`: a task suits a role; it is the first free one; there is no
    free one.  `firstFrom_eq_some_iff`, `firstFrom_eq_none_iff`: the search for one role.
  * `Fills`, `Stops`: the search for all roles, as it succeeds and as it fails.
    `find?_eq_some_iff`, `find?_eq_none_iff`: so it is made.
  * `Fills.of_alike`: nothing counts but the kinds and labels of the nodes up to the last
    one that is found.
  * `search_greedy`: all of this for a graph.
-/
import Mathlib.Data.List.Nodup
import Swimlane.Cycle.Detect

namespace Swimlane

/-- The keywords of the roles, in the order in which the roles are filled. -/
def LoopRoles.inOrder (roles : LoopRoles) : List (List String) :=
  [roles.plan, roles.execute, roles.check, roles.act]

namespace Cycle

/-! ## One role -/

/-- A task whose label matches one of the keywords. -/
structure Suits (keywords : List String) (n : Node) : Prop where
  task : n.kind.isTask = true
  label : ∃ k ∈ keywords, Vocabulary.matchesKeyword (Vocabulary.words n.label) k = true

/-- The place `i` is the first with a suitable task that is not taken. -/
structure First (keywords : List String) (taken : List ℕ) (nodes : List Node) (i : ℕ) : Prop where
  suits : ∃ n, nodes[i]? = some n ∧ Suits keywords n
  free : i ∉ taken
  least : ∀ j < i, ∀ n, nodes[j]? = some n → Suits keywords n → j ∈ taken

/-- All suitable tasks are taken. -/
def Lacks (keywords : List String) (taken : List ℕ) (nodes : List Node) : Prop :=
  ∀ i n, nodes[i]? = some n → Suits keywords n → i ∈ taken

/-- What the search sees of a node. -/
def look (n : Node) : NodeKind × String := (n.kind, n.label)

section
variable {keywords : List String} {taken : List ℕ} {nodes nodes' : List Node} {i j k : ℕ}
  {n n' : Node} {m : Member}

theorem suits_iff : Suits keywords n ↔ n.kind.isTask = true ∧
    Vocabulary.matchesAny (Vocabulary.words n.label) keywords = true := by
  rw [Vocabulary.matchesAny, List.any_eq_true]
  exact ⟨fun h => ⟨h.task, h.label⟩, fun ⟨htask, hlabel⟩ => ⟨htask, hlabel⟩⟩

theorem suits_congr (h : look n = look n') : Suits keywords n ↔ Suits keywords n' := by
  obtain ⟨hkind, hlabel⟩ := Prod.mk.inj h
  rw [suits_iff, suits_iff, hkind, hlabel]

theorem canFill_iff : canFill keywords taken n i = true ↔ Suits keywords n ∧ i ∉ taken := by
  simp only [canFill, suits_iff, Bool.and_eq_true, Bool.not_eq_true', List.contains_eq_mem,
    decide_eq_false_iff_not]
  tauto

/-- The search goes through the nodes with their places. -/
theorem firstFrom_eq_find? (keywords : List String) (taken : List ℕ) (start : ℕ)
    (nodes : List Node) : firstFrom keywords taken start nodes =
      ((nodes.zipIdx start).find? fun p => canFill keywords taken p.1 p.2).map
        fun p => ⟨p.2, p.1⟩ := by
  induction nodes generalizing start with
  | nil => rfl
  | cons n nodes ih =>
    rw [firstFrom, List.zipIdx_cons, List.find?_cons, ih]
    cases canFill keywords taken n start <;> rfl

/-- **A role takes the first free task** that suits it. -/
theorem firstFrom_eq_some_iff : firstFrom keywords taken 0 nodes = some m ↔
    nodes[m.index]? = some m.node ∧ First keywords taken nodes m.index := by
  simp only [firstFrom_eq_find?, Option.map_eq_some_iff, List.find?_eq_some_iff_getElem,
    List.length_zipIdx, List.getElem_zipIdx, Nat.zero_add, Bool.not_eq_true', Prod.exists]
  constructor
  · rintro ⟨n, i, ⟨hfill, j, hj, hplace, hleast⟩, rfl⟩
    obtain ⟨rfl, rfl⟩ := Prod.mk.inj hplace
    obtain ⟨hsuits, hfree⟩ := canFill_iff.1 hfill
    have hnode : nodes[j]? = some nodes[j] := List.getElem?_eq_getElem hj
    refine ⟨hnode, ⟨_, hnode, hsuits⟩, hfree, fun k hk n hn hs => ?_⟩
    obtain ⟨_, rfl⟩ := List.getElem?_eq_some_iff.1 hn
    by_contra htaken
    have hskip := hleast k hk
    rw [canFill_iff.2 ⟨hs, htaken⟩] at hskip
    cases hskip
  · rintro ⟨hnode, hfirst⟩
    obtain ⟨n, hn, hsuits⟩ := hfirst.suits
    obtain rfl : m.node = n := Option.some.inj (hnode.symm.trans hn)
    obtain ⟨hlt, hget⟩ := List.getElem?_eq_some_iff.1 hnode
    refine ⟨m.node, m.index, ⟨canFill_iff.2 ⟨hsuits, hfirst.free⟩, m.index, hlt, by rw [hget],
      fun j hj => ?_⟩, rfl⟩
    refine Bool.eq_false_iff.2 fun hfill => ?_
    obtain ⟨hs, hfree⟩ := canFill_iff.1 hfill
    exact hfree (hfirst.least j hj _ (List.getElem?_eq_getElem (Nat.lt_trans hj hlt)) hs)

/-- A role takes none if there is no free one. -/
theorem firstFrom_eq_none_iff :
    firstFrom keywords taken 0 nodes = none ↔ Lacks keywords taken nodes := by
  simp only [firstFrom_eq_find?, Option.map_eq_none_iff, List.find?_eq_none, Prod.forall,
    List.mem_zipIdx_iff_getElem?, canFill_iff, not_and, not_not]
  exact ⟨fun h i n hn hs => h n i hn hs, fun h n i hn hs => h i n hn hs⟩

/-- Only one place is the first. -/
theorem First.unique (hi : First keywords taken nodes i) (hj : First keywords taken nodes j) :
    i = j := by
  obtain ⟨n, hn, hsn⟩ := hi.suits
  obtain ⟨n', hn', hsn'⟩ := hj.suits
  rcases Nat.lt_trichotomy i j with hlt | heq | hlt
  · exact absurd (hj.least i hlt n hn hsn) hi.free
  · exact heq
  · exact absurd (hi.least j hlt n' hn' hsn') hj.free

theorem First.not_lacks (h : First keywords taken nodes i) : ¬ Lacks keywords taken nodes := by
  intro hlacks
  obtain ⟨n, hn, hs⟩ := h.suits
  exact h.free (hlacks i n hn hs)

/-- The nodes before the place `k` look the same. -/
def AlikeBefore (k : ℕ) (nodes nodes' : List Node) : Prop :=
  ∀ i < k, nodes[i]?.map look = nodes'[i]?.map look

theorem AlikeBefore.symm (h : AlikeBefore k nodes nodes') : AlikeBefore k nodes' nodes :=
  fun i hi => (h i hi).symm

theorem AlikeBefore.exists_suits (h : AlikeBefore k nodes nodes') (hi : i < k)
    (hn : nodes[i]? = some n) (hs : Suits keywords n) :
    ∃ n', nodes'[i]? = some n' ∧ Suits keywords n' := by
  have hlook := h i hi
  rw [hn, Option.map_some, eq_comm, Option.map_eq_some_iff] at hlook
  obtain ⟨n', hn', hlook⟩ := hlook
  exact ⟨n', hn', (suits_congr hlook).2 hs⟩

/-- **The first free task stays the first** whatever becomes of the nodes after it. -/
theorem First.of_alike (h : First keywords taken nodes i) (hi : i < k)
    (halike : AlikeBefore k nodes nodes') : First keywords taken nodes' i where
  suits := by
    obtain ⟨n, hn, hs⟩ := h.suits
    exact halike.exists_suits hi hn hs
  free := h.free
  least j hj n' hn' hs' := by
    obtain ⟨n, hn, hs⟩ := halike.symm.exists_suits (Nat.lt_trans hj hi) hn' hs'
    exact h.least j hj n hn hs

end

/-! ## All roles -/

/-- The roles are filled in turn at the places `is`, the places `taken` being taken
    before. -/
inductive Fills (nodes : List Node) : List (List String) → List ℕ → List ℕ → Prop
  | nil {taken : List ℕ} : Fills nodes [] taken []
  | cons {keywords : List String} {roles : List (List String)} {taken : List ℕ} {i : ℕ}
      {is : List ℕ} (first : First keywords taken nodes i)
      (others : Fills nodes roles (taken ++ [i]) is) :
      Fills nodes (keywords :: roles) taken (i :: is)

/-- The roles are filled in turn until one of them finds no free task. -/
inductive Stops (nodes : List Node) : List (List String) → List ℕ → Prop
  | here {keywords : List String} {roles : List (List String)} {taken : List ℕ}
      (lacks : Lacks keywords taken nodes) : Stops nodes (keywords :: roles) taken
  | later {keywords : List String} {roles : List (List String)} {taken : List ℕ} {i : ℕ}
      (first : First keywords taken nodes i) (stops : Stops nodes roles (taken ++ [i])) :
      Stops nodes (keywords :: roles) taken

section
variable {nodes nodes' : List Node} {roles : List (List String)} {taken is : List ℕ}

theorem Fills.not_stops (h : Fills nodes roles taken is) : ¬ Stops nodes roles taken := by
  induction h with
  | nil => exact nofun
  | cons first _ ih =>
    intro hstops
    cases hstops with
    | here hlacks => exact first.not_lacks hlacks
    | later hfirst hstops => exact ih (first.unique hfirst ▸ hstops)

/-- The search ends in one of the two ways. -/
theorem exists_fills_or_stops (nodes : List Node) (roles : List (List String)) (taken : List ℕ) :
    (∃ is, Fills nodes roles taken is) ∨ Stops nodes roles taken := by
  induction roles generalizing taken with
  | nil => exact Or.inl ⟨[], .nil⟩
  | cons keywords roles ih =>
    cases hfirst : firstFrom keywords taken 0 nodes with
    | none => exact Or.inr (.here (firstFrom_eq_none_iff.1 hfirst))
    | some m =>
      have hm := (firstFrom_eq_some_iff.1 hfirst).2
      rcases ih (taken ++ [m.index]) with ⟨is, his⟩ | hstops
      · exact Or.inl ⟨_, .cons hm his⟩
      · exact Or.inr (.later hm hstops)

/-- No place is taken twice. -/
theorem Fills.nodup (h : Fills nodes roles taken is) : is.Nodup ∧ ∀ i ∈ is, i ∉ taken := by
  induction h with
  | nil => exact ⟨List.nodup_nil, nofun⟩
  | cons first _ ih =>
    obtain ⟨hnodup, hfree⟩ := ih
    refine ⟨List.nodup_cons.2 ⟨fun hmem => hfree _ hmem (by simp), hnodup⟩, ?_⟩
    exact List.forall_mem_cons.2
      ⟨first.free, fun i hi htaken => hfree i hi (List.mem_append_left _ htaken)⟩

/-- Each role takes the first task that the earlier roles have left. -/
theorem Fills.first (h : Fills nodes roles taken is) {r : ℕ} {keywords : List String} {i : ℕ}
    (hrole : roles[r]? = some keywords) (hi : is[r]? = some i) :
    First keywords (taken ++ is.take r) nodes i := by
  induction h generalizing r with
  | nil => cases hrole
  | cons first _ ih =>
    cases r with
    | zero =>
      cases hrole
      cases hi
      simpa using first
    | succ r =>
      rw [List.getElem?_cons_succ] at hrole hi
      simpa using ih hrole hi

/-- All places that are taken have tasks that suit some role. -/
theorem Fills.exists_suits (h : Fills nodes roles taken is) :
    ∀ i ∈ is, ∃ n, nodes[i]? = some n ∧ ∃ keywords ∈ roles, Suits keywords n := by
  induction h with
  | nil => exact nofun
  | cons first _ ih =>
    obtain ⟨n, hn, hsuits⟩ := first.suits
    refine List.forall_mem_cons.2 ⟨⟨n, hn, _, List.mem_cons_self, hsuits⟩, fun i hi => ?_⟩
    obtain ⟨n, hn, keywords, hkeywords, hsuits⟩ := ih i hi
    exact ⟨n, hn, keywords, List.mem_cons_of_mem _ hkeywords, hsuits⟩

/-- **The search stays the same** whatever becomes of the nodes after the last one that is
    found, as long as those before it look the same. -/
theorem Fills.of_alike {k : ℕ} (h : Fills nodes roles taken is) (hlt : ∀ i ∈ is, i < k)
    (halike : AlikeBefore k nodes nodes') : Fills nodes' roles taken is := by
  induction h with
  | nil => exact .nil
  | cons first _ ih =>
    obtain ⟨hi, his⟩ := List.forall_mem_cons.1 hlt
    exact .cons (first.of_alike hi halike) (ih his)

end

/-! ## Cycles -/

section
variable {roles : LoopRoles} {g : Graph} {c : Cycle}

/-- **A cycle is found** where the roles are filled. -/
theorem find?_eq_some_iff : find? roles g = some c ↔
    (∀ m ∈ c.members, g.nodes[m.index]? = some m.node) ∧
      Fills g.nodes roles.inOrder [] c.indices := by
  simp only [find?, Option.bind_eq_bind, Option.bind_eq_some_iff, Option.pure_def,
    Option.some.injEq, firstFrom_eq_some_iff]
  constructor
  · rintro ⟨plan, ⟨hplan, hfirst₁⟩, execute, ⟨hexecute, hfirst₂⟩, check, ⟨hcheck, hfirst₃⟩, act,
      ⟨hact, hfirst₄⟩, rfl⟩
    refine ⟨by simp [members, hplan, hexecute, hcheck, hact], ?_⟩
    exact .cons hfirst₁ (.cons hfirst₂ (.cons hfirst₃ (.cons hfirst₄ .nil)))
  · rintro ⟨hmembers, hfills⟩
    simp only [members, List.forall_mem_cons] at hmembers
    obtain ⟨hplan, hexecute, hcheck, hact, -⟩ := hmembers
    cases hfills with | cons hfirst₁ hfills =>
    cases hfills with | cons hfirst₂ hfills =>
    cases hfills with | cons hfirst₃ hfills =>
    cases hfills with | cons hfirst₄ _ =>
    exact ⟨c.plan, ⟨hplan, hfirst₁⟩, c.execute, ⟨hexecute, hfirst₂⟩, c.check, ⟨hcheck, hfirst₃⟩,
      c.act, ⟨hact, hfirst₄⟩, rfl⟩

theorem exists_find?_of_fills {is : List ℕ} (h : Fills g.nodes roles.inOrder [] is) :
    ∃ c, find? roles g = some c ∧ c.indices = is := by
  have hplace : ∀ {keywords taken i}, First keywords taken g.nodes i →
      ∃ n, g.nodes[i]? = some n := fun hfirst => by
    obtain ⟨n, hn, -⟩ := hfirst.suits
    exact ⟨n, hn⟩
  have hfills := h
  cases h with | cons hfirst₁ h =>
  cases h with | cons hfirst₂ h =>
  cases h with | cons hfirst₃ h =>
  cases h with | cons hfirst₄ h =>
  cases h with | nil =>
  obtain ⟨plan, hplan⟩ := hplace hfirst₁
  obtain ⟨execute, hexecute⟩ := hplace hfirst₂
  obtain ⟨check, hcheck⟩ := hplace hfirst₃
  obtain ⟨act, hact⟩ := hplace hfirst₄
  refine ⟨⟨⟨_, plan⟩, ⟨_, execute⟩, ⟨_, check⟩, ⟨_, act⟩⟩, find?_eq_some_iff.2 ⟨?_, hfills⟩, rfl⟩
  simp [members, hplan, hexecute, hcheck, hact]

/-- **No cycle is found** where the search for the roles stops. -/
theorem find?_eq_none_iff : find? roles g = none ↔ Stops g.nodes roles.inOrder [] := by
  constructor
  · intro hnone
    rcases exists_fills_or_stops g.nodes roles.inOrder [] with ⟨is, his⟩ | hstops
    · obtain ⟨c, hc, -⟩ := exists_find?_of_fills his
      rw [hnone] at hc
      cases hc
    · exact hstops
  · intro hstops
    refine Option.eq_none_iff_forall_not_mem.2 fun c hc => ?_
    exact (find?_eq_some_iff.1 hc).2.not_stops hstops

end

/-- **The search for a cycle is greedy, sound and stable.**  A cycle has four tasks at
    different places; each suits its role, and only earlier roles have taken suitable tasks
    before it.  No cycle is found exactly if some role, in turn, is left without a suitable
    task.  What is found does not change with anything but the kinds and labels of the nodes
    up to the last member. -/
theorem search_greedy (roles : LoopRoles) (g : Graph) :
    (∀ c, find? roles g = some c → c.indices.Nodup ∧
      ∀ r keywords m, roles.inOrder[r]? = some keywords → c.members[r]? = some m →
        g.nodes[m.index]? = some m.node ∧ Suits keywords m.node ∧
        ∀ j n, j < m.index → g.nodes[j]? = some n → Suits keywords n → j ∈ c.indices.take r) ∧
    (find? roles g = none ↔ Stops g.nodes roles.inOrder []) ∧
    ∀ c, find? roles g = some c → ∀ (g' : Graph) (front rest front' rest' : List Node),
      g.nodes = front ++ rest → (∀ i ∈ c.indices, i < front.length) →
      g'.nodes = front' ++ rest' → front'.map look = front.map look →
      ∃ c', find? roles g' = some c' ∧ c'.indices = c.indices := by
  refine ⟨?_, find?_eq_none_iff, ?_⟩
  · intro c hc
    obtain ⟨hmembers, hfills⟩ := find?_eq_some_iff.1 hc
    refine ⟨hfills.nodup.1, fun r keywords m hrole hm => ?_⟩
    have hindex : c.indices[r]? = some m.index := by
      rw [indices, List.getElem?_map, hm, Option.map_some]
    have hplace := hmembers m (List.mem_of_getElem? hm)
    have hfirst := hfills.first hrole hindex
    obtain ⟨n, hn, hsuits⟩ := hfirst.suits
    obtain rfl : m.node = n := Option.some.inj (hplace.symm.trans hn)
    exact ⟨hplace, hsuits, fun j n hj hn hs => by simpa using hfirst.least j hj n hn hs⟩
  · intro c hc g' front rest front' rest' hg hlt hg' hlook
    refine exists_find?_of_fills ((find?_eq_some_iff.1 hc).2.of_alike hlt fun i hi => ?_)
    have hlength : front.length = front'.length := by
      simpa using (congrArg List.length hlook).symm
    rw [hg, hg', List.getElem?_append_left hi, List.getElem?_append_left (hlength ▸ hi),
      ← List.getElem?_map, ← List.getElem?_map, hlook]

/-- A graph in which each role but the first suits a task that an earlier role takes. -/
def contested : Graph where
  name := "Contested"
  nodes :=
    [{ id := "v", kind := .userTask, label := "Verificar plano" },
     { id := "x", kind := .task, label := "Executar o plano" },
     { id := "c", kind := .userTask, label := "Checar e ajustar" },
     { id := "a", kind := .serviceTask, label := "Ajustar" }]
  flows := [{ id := "f", source := "v", target := "x" }]

/-- The same tasks under other names, and one more that suits the first role. -/
def renamed : Graph where
  name := "Renamed"
  nodes := contested.nodes.map (fun n => { n with id := n.id ++ "_1", lane := some .executive }) ++
    [{ id := "p", kind := .task, label := "Plano" }]
  flows := []

theorem greedy_contested : ∃ c, find? {} contested = some c ∧ c.indices.Nodup ∧
    (∃ n, contested.nodes[0]? = some n ∧ Suits ({} : LoopRoles).check n) ∧
    0 ∈ c.indices.take 2 ∧ ∃ c', find? {} renamed = some c' ∧ c'.indices = c.indices := by
  obtain ⟨hgreedy, -, hstable⟩ := search_greedy {} contested
  obtain ⟨c, hc, hindices⟩ : ∃ c, find? {} contested = some c ∧ c.indices = [0, 1, 2, 3] :=
    ⟨_, rfl, rfl⟩
  obtain ⟨hnodup, hroles⟩ := hgreedy c hc
  obtain ⟨n, hn, hsuits⟩ : ∃ n, contested.nodes[0]? = some n ∧ Suits ({} : LoopRoles).check n :=
    ⟨_, rfl, suits_iff.2 ⟨rfl, rfl⟩⟩
  have hplace : c.check.index = 2 :=
    Option.some.inj (congrArg (fun is : List ℕ => is[2]?) hindices)
  obtain ⟨-, -, hearlier⟩ := hroles 2 _ c.check rfl rfl
  refine ⟨c, hc, hnodup, ⟨n, hn, hsuits⟩, hearlier 0 n (by omega) hn hsuits, ?_⟩
  refine hstable c hc renamed contested.nodes [] _ _ (by simp) ?_ rfl rfl
  simp [hindices, contested]

end Cycle

end Swimlane
