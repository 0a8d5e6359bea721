/-
# The expansion of loops

Without closed forms the schedule of a function goes through the loops as often as they are
unrolled.  A block comes up once for each combination of passes through the loops around it, the
passes through a loop follow each other directly, each from the header on, and within a pass an edge
that control cannot go back over leads onwards.

Each scope is expanded block by block.  What a block adds when it comes up depends on its leader: a
block that leads no loop is visited, the header of a loop directly inside the scope stands for the
whole loop, and the other blocks of the loop add nothing.
-/
import Mathlib
import Roundoff.Proofs.Flow.Scopes

namespace Roundoff

open LoopForest

variable {R : Type} {f : Function R} {settings : Settings} {b h u v x y : BlockId} {c s : ℕ}
  {k l : Loop} {number : Option ℕ} {scope : Option Loop} {edges : PhiEdges} {vs ws : List Visit}

/-! ## Passes through a scope -/

/-- How often the blocks of a loop are repeated. -/
def Loop.unrollCount (l : Loop) (settings : Settings) (f : Function R) : ℕ :=
  (settings.unrollCount ((f.block? l.header).bind Block.unrollHint)
    ((f.block? l.header).bind Block.tripCount)).toNat

/-- One pass through the blocks of a scope. -/
structure IsPass (f : Function R) (settings : Settings) (scope : Option Loop) (edges : PhiEdges)
    (vs : List Visit) : Prop where
  /-- Only blocks of the scope are visited. -/
  inScope : ∀ x ∈ vs, InScope f scope x.block
  /-- A block is visited once for each combination of passes through the loops around it that lie
  inside the scope. -/
  count_eq : ∀ b, InScope f scope b →
    (vs.map Visit.block).count b = ∏ l ∈ loopsAround f scope b, l.unrollCount settings f
  /-- If an edge leads from `u` to `v`, control cannot pass from `v` to `u`, and no loop inside the
  scope contains both, then all visits of `u` come before all visits of `v`. -/
  precedes : ∀ u v, InScope f scope u → InScope f scope v → v ∈ (FlowGraph.of f).targetsOf u →
    ¬ (FlowGraph.of f).Reaches v u → Disjoint (loopsAround f scope u) (loopsAround f scope v) →
    vs.Pairwise fun x y => ¬ (x.block = v ∧ y.block = u)
  /-- A pass through a loop starts with the header, which reads the given edges. -/
  head?_eq : ∀ l, scope = some l → vs.head? = some ⟨l.header, edges⟩

/-- A list of visits falls into `n` passes.  The first one reads the edges that enter a loop, and
the others read those from inside. -/
def IsRepeated (P : PhiEdges → List Visit → Prop) (n : ℕ) (vs : List Visit) : Prop :=
  ∃ (first : List Visit) (later : List (List Visit)), vs = first ++ later.flatten ∧
    later.length + 1 = n ∧ P .entry first ∧ ∀ pass ∈ later, P .latch pass

/-- A list of visits in which the blocks of a loop come up in runs through the loop only.  A run
makes as many passes as the loop is unrolled. -/
inductive ConsistsOfRuns (f : Function R) (settings : Settings) (l : Loop) : List Visit → Prop
  /-- There are no visits. -/
  | nil : ConsistsOfRuns f settings l []
  /-- A block outside the loop comes up. -/
  | outside {x : Visit} {vs : List Visit} (hx : l.contains x.block = false)
      (hvs : ConsistsOfRuns f settings l vs) : ConsistsOfRuns f settings l (x :: vs)
  /-- A run through the loop comes up. -/
  | run {run vs : List Visit}
      (hrun : IsRepeated (IsPass f settings (some l)) (l.unrollCount settings f) run)
      (hvs : ConsistsOfRuns f settings l vs) : ConsistsOfRuns f settings l (run ++ vs)

/-- One pass through the blocks of a scope in which the loops inside it are expanded. -/
structure IsExpansion (f : Function R) (settings : Settings) (scope : Option Loop)
    (edges : PhiEdges) (vs : List Visit) : Prop extends IsPass f settings scope edges vs where
  /-- The blocks of a loop inside the scope come up in runs through the loop only. -/
  runs : ∀ l ∈ (FlowGraph.of f).naturalLoops, scope.all l.isInside = true →
    ConsistsOfRuns f settings l vs
  /-- The phis of a block that heads no loop read all edges. -/
  edges_eq : ∀ x ∈ vs, (∀ l ∈ (FlowGraph.of f).naturalLoops, l.header ≠ x.block) → x.edges = .all

lemma Settings.unrollCount_filter_pos (settings : Settings) (hint tripCount : Option UInt32) :
    settings.unrollCount hint (tripCount.filter (0 < ·)) = settings.unrollCount hint tripCount := by
  have hfilter : (tripCount.filter (0 < ·)).filter (· ≠ 0) = tripCount.filter (· ≠ 0) := by
    cases tripCount with
    | none => rfl
    | some t =>
      by_cases ht : t = 0
      · subst ht
        rfl
      · have hpos : 0 < t := by
          rw [UInt32.lt_iff_toNat_lt]
          have := UInt32.toNat_inj.ne.2 ht
          simp at this ⊢
          omega
        simp [Option.filter, hpos, ht]
  simp only [unrollCount, hfilter]

/-- A loop is gone through at least once. -/
lemma Settings.one_le_unrollCount (settings : Settings) (hint tripCount : Option UInt32) :
    1 ≤ (settings.unrollCount hint tripCount).toNat := by
  have hmax (n : UInt32) : 1 ≤ (max n 1).toNat := by
    change 1 ≤ (if n ≤ 1 then 1 else n).toNat
    split
    · decide
    · next hn =>
      simp only [UInt32.le_iff_toNat_le, UInt32.toNat_one] at hn
      omega
  unfold unrollCount
  split
  · decide
  · exact hmax _

namespace IsRepeated

variable {P Q : PhiEdges → List Visit → Prop} {n : ℕ}

lemma mono (h : IsRepeated P n vs) (hPQ : ∀ edges vs, P edges vs → Q edges vs) :
    IsRepeated Q n vs := by
  obtain ⟨first, later, hvs, hn, hfirst, hlater⟩ := h
  exact ⟨first, later, hvs, hn, hPQ _ _ hfirst, fun pass hpass => hPQ _ _ (hlater pass hpass)⟩

/-- What is the case of no visits, and of more visits with every pass, is the case of all passes. -/
lemma induction (h : IsRepeated P n vs) {C : ℕ → List Visit → Prop} (hnil : C 0 [])
    (happend : ∀ n edges pass vs, P edges pass → C n vs → C (n + 1) (pass ++ vs)) : C n vs := by
  obtain ⟨first, later, rfl, rfl, hfirst, hlater⟩ := h
  refine happend _ _ _ _ hfirst ?_
  clear hfirst
  induction later with
  | nil => exact hnil
  | cons pass later ih =>
    rw [List.flatten_cons]
    exact happend _ _ _ _ (hlater pass List.mem_cons_self)
      (ih fun pass hpass => hlater pass (List.mem_cons_of_mem _ hpass))

lemma forall_mem (h : IsRepeated P n vs) {q : Visit → Prop}
    (hP : ∀ edges vs, P edges vs → ∀ x ∈ vs, q x) : ∀ x ∈ vs, q x := by
  refine h.induction (C := fun _ vs => ∀ x ∈ vs, q x) (by simp) ?_
  intro n edges pass vs hpass hvs x hx
  rcases List.mem_append.1 hx with hx | hx
  · exact hP edges pass hpass x hx
  · exact hvs x hx

lemma count_eq (h : IsRepeated P n vs) {m : ℕ}
    (hP : ∀ edges vs, P edges vs → (vs.map Visit.block).count b = m) :
    (vs.map Visit.block).count b = n * m := by
  refine h.induction (C := fun n vs => (vs.map Visit.block).count b = n * m) (by simp) ?_
  intro n edges pass vs hpass hvs
  rw [List.map_append, List.count_append, hP edges pass hpass, hvs]
  ring

end IsRepeated

namespace ConsistsOfRuns

lemma append (hvs : ConsistsOfRuns f settings l vs) (hws : ConsistsOfRuns f settings l ws) :
    ConsistsOfRuns f settings l (vs ++ ws) := by
  induction hvs with
  | nil => exact hws
  | outside hx _ ih => exact .outside hx ih
  | run hrun _ ih =>
    rw [List.append_assoc]
    exact .run hrun ih

lemma of_forall (h : ∀ x ∈ vs, l.contains x.block = false) : ConsistsOfRuns f settings l vs := by
  induction vs with
  | nil => exact .nil
  | cons x vs ih =>
    exact .outside (h x List.mem_cons_self) (ih fun y hy => h y (List.mem_cons_of_mem _ hy))

lemma flatMap {bs : List BlockId} {part : BlockId → List Visit}
    (h : ∀ b ∈ bs, ConsistsOfRuns f settings l (part b)) :
    ConsistsOfRuns f settings l (bs.flatMap part) := by
  induction bs with
  | nil => exact .nil
  | cons b bs ih =>
    rw [List.flatMap_cons]
    exact (h b List.mem_cons_self).append (ih fun b hb => h b (List.mem_cons_of_mem _ hb))

lemma of_isRepeated {n : ℕ} {P : PhiEdges → List Visit → Prop} (h : IsRepeated P n vs)
    (hP : ∀ edges vs, P edges vs → ConsistsOfRuns f settings l vs) :
    ConsistsOfRuns f settings l vs :=
  h.induction (C := fun _ vs => ConsistsOfRuns f settings l vs) .nil
    fun _ edges pass _ hpass hvs => (hP edges pass hpass).append hvs

end ConsistsOfRuns

/-! ## Expanding a scope -/

/-- The visits that are made when a block of the scope comes up, where `expand` gives those of an
inner loop. -/
inductive Part (f : Function R) (settings : Settings) (scope : Option Loop) (edges : PhiEdges)
    (expand : LoopId → List BlockId → Schedule) (x : BlockId) : List Visit → Prop
  /-- The header of the scope is visited with the edges of the pass. -/
  | header (hx : scope.any (·.header == x) = true) :
    Part f settings scope edges expand x [⟨x, edges⟩]
  /-- A block outside the inner loops is visited. -/
  | block (hx : scope.any (·.header == x) = false) (hout : loopsAround f scope x = ∅) :
      Part f settings scope edges expand x [⟨x, .all⟩]
  /-- The header of an inner loop stands for the loop. -/
  | loop {c : ℕ} {k : Loop} {vs : List Visit} (hk : IsChild (FlowGraph.of f) scope x c k)
      (hx : x = k.header) (hvs : expand c (blocksOf f (some k)) = vs.map .visit)
      (hrun : IsRepeated (IsExpansion f settings (some k)) (k.unrollCount settings f) vs) :
      Part f settings scope edges expand x vs
  /-- The other blocks of an inner loop have been visited with the header. -/
  | visited {c : ℕ} {k : Loop} (hk : IsChild (FlowGraph.of f) scope x c k) (hx : x ≠ k.header) :
      Part f settings scope edges expand x []

/-- A loop directly inside a scope is expanded to passes through the loop. -/
def ExpandsLoops (f : Function R) (settings : Settings) (scope : Option Loop)
    (expand : LoopId → List BlockId → Schedule) : Prop :=
  ∀ x c k, IsChild (FlowGraph.of f) scope x c k →
    ∃ vs, expand c (blocksOf f (some k)) = vs.map .visit ∧
      IsRepeated (IsExpansion f settings (some k)) (k.unrollCount settings f) vs

lemma Flow.loops_of (f : Function R) : (Flow.of f).loops = LoopForest.of (FlowGraph.of f) := rfl

section Part

variable {expand : LoopId → List BlockId → Schedule}
  (hscope : IsScope (FlowGraph.of f) number scope)

include hscope

lemma loopsAround_of_header (hx : scope.any (·.header == x) = true) :
    loopsAround f scope x = ∅ := by
  cases scope with
  | none => simp at hx
  | some l =>
    have heq : l.header = x := by simpa using hx
    exact heq ▸ hscope.loopsAround_header

lemma exists_part (edges : PhiEdges) (hexpand : ExpandsLoops f settings scope expand)
    (hx : InScope f scope x) :
    ∃ vs, Part f settings scope edges expand x vs := by
  cases hheader : scope.any (·.header == x) with
  | true => exact ⟨_, .header hheader⟩
  | false =>
    rcases exists_isChild hscope hx with ⟨c, k, -, hk⟩ | ⟨-, hout⟩
    · by_cases hxk : x = k.header
      · obtain ⟨vs, hvs, hrun⟩ := hexpand x c k hk
        exact ⟨vs, .loop hk hxk hvs hrun⟩
      · exact ⟨[], .visited hk hxk⟩
    · exact ⟨_, .block hheader hout⟩

/-- A block that is not its own leader adds no visits. -/
lemma Part.eq_nil (h : Part f settings scope edges expand x vs) (hu : IsLeader f scope x u)
    (hne : u ≠ x) : vs = [] := by
  cases h with
  | header hx => exact absurd (hu.unique (.self (loopsAround_of_header hscope hx))) hne
  | block _ hout => exact absurd (hu.unique (.self hout)) hne
  | loop hk hx _ _ => exact absurd ((hu.unique (.header hk)).trans hx.symm) hne
  | visited => rfl

/-- If a block is its own leader, its visits are made when it comes up, and the other blocks that it
leads are done from then on. -/
lemma Part.exists_bodyItems_cons (h : Part f settings scope edges expand b vs)
    (hb : InScope f scope b) (hlead : IsLeader f scope b b) {done rest : List BlockId}
    (hopen : b ∉ done) :
    ∃ led, (Flow.of f).bodyItems number edges expand (blocksOf f scope) done (b :: rest)
        = vs.map .visit
          ++ (Flow.of f).bodyItems number edges expand (blocksOf f scope) (led ++ done) rest ∧
      ∀ x, InScope f scope x → x ≠ b → (x ∈ led ↔ IsLeader f scope x b) := by
  have halone : loopsAround f scope b = ∅ → ∀ x, InScope f scope x → x ≠ b →
      (x ∈ [] ↔ IsLeader f scope x b) := fun hout x _ hne =>
    iff_of_false List.not_mem_nil fun hled => hne (hled.eq_of_empty hout)
  rw [Flow.bodyItems, if_neg hopen, Flow.loops_of, hscope.bind_get?]
  cases h with
  | header hx =>
    rw [if_pos hx]
    exact ⟨[], rfl, halone (loopsAround_of_header hscope hx)⟩
  | block hx hout =>
    rcases exists_isChild hscope hb with ⟨c, k, -, hk⟩ | ⟨hnone, -⟩
    · exact absurd hout hk.loopsAround_ne_empty
    · rw [hx, if_neg Bool.false_ne_true, hnone]
      exact ⟨[], rfl, halone hout⟩
  | @loop c k vs hk hx hvs =>
    have hheader : ¬ scope.any (·.header == b) = true := by
      intro hheader
      have hout := loopsAround_of_header hscope hheader
      exact absurd hout hk.loopsAround_ne_empty
    have hc := (childContaining?_eq_some_iff hb.mem_order hscope hb.contains).2 ⟨k, hk⟩
    have hled : ((blocksOf f scope).filter fun m =>
        ((LoopForest.of (FlowGraph.of f)).get? c).any fun l => l.contains m)
          = blocksOf f (some k) := by
      rw [← blocksOf_filter hk, hk.get?]
      rfl
    rw [if_neg hheader, hc]
    refine ⟨blocksOf f (some k), ?_, fun x hx' _ => ?_⟩
    · rw [← hvs]
      simp only [hled]
    · rw [← blocksOf_filter hk, List.mem_filter, and_iff_right (mem_blocksOf.2 hx'), hx,
        isLeader_header_iff hk hx']
  | visited hk hx => exact absurd (hlead.unique (.header hk)) hx

/-- When the header of the scope comes up, it is visited with the edges of the pass. -/
lemma Part.eq_of_header (h : Part f settings scope edges expand x vs)
    (hx : scope.any (·.header == x) = true) : vs = [⟨x, edges⟩] := by
  have hout := loopsAround_of_header hscope hx
  cases h with
  | header => rfl
  | block hx' => exact absurd (hx.symm.trans hx') Bool.noConfusion
  | loop hk => exact absurd hout hk.loopsAround_ne_empty
  | visited hk => exact absurd hout hk.loopsAround_ne_empty

/-- The steps for the blocks that come up after those of `pre`, where the blocks with leaders in
`pre` are done. -/
lemma bodyItems_eq_of_split {part : BlockId → List Visit}
    (hpart : ∀ x, InScope f scope x → Part f settings scope edges expand x (part x))
    {pre rest done : List BlockId} (hsplit : blocksOf f scope = pre ++ rest)
    (hdone : ∀ x ∈ rest, x ∈ done ↔ ∃ u ∈ pre, IsLeader f scope x u) :
    (Flow.of f).bodyItems number edges expand (blocksOf f scope) done rest
      = (rest.flatMap part).map .visit := by
  induction rest generalizing pre done with
  | nil => rfl
  | cons b rest ih =>
    have hmem : ∀ x ∈ b :: rest, InScope f scope x := fun x hx =>
      mem_blocksOf.1 (hsplit ▸ List.mem_append_right _ hx)
    have hb := hmem b List.mem_cons_self
    have hsplit' : blocksOf f scope = (pre ++ [b]) ++ rest := by simp [hsplit]
    have hnodup := nodup_blocksOf f scope
    rw [hsplit, List.nodup_middle, List.nodup_cons, List.mem_append, not_or] at hnodup
    obtain ⟨⟨hpre, hrest⟩, -⟩ := hnodup
    have hfirst := hdone b List.mem_cons_self
    have hnext : ∀ x ∈ rest, ((∃ u ∈ pre ++ [b], IsLeader f scope x u) ↔
        IsLeader f scope x b ∨ x ∈ done) := by
      intro x hx
      rw [hdone x (List.mem_cons_of_mem _ hx)]
      simp [or_and_right, exists_or, or_comm]
    rw [List.flatMap_cons, List.map_append]
    obtain ⟨u, hu⟩ := exists_isLeader hscope hb
    by_cases hub : u = b
    · subst hub
      have hopen : u ∉ done := by
        rw [hfirst]
        rintro ⟨w, hw, hlead⟩
        exact hpre (hu.unique hlead ▸ hw)
      obtain ⟨led, hitems, hled⟩ := (hpart u hb).exists_bodyItems_cons hscope hb hu hopen
      rw [hitems, ih hsplit' fun x hx => ?_]
      rw [hnext x hx, List.mem_append,
        hled x (hmem x (List.mem_cons_of_mem _ hx)) fun heq => hrest (heq ▸ hx)]
    · -- the loop of the block has been expanded when its header came up
      have hold : b ∈ done := hfirst.2 ⟨u, (hu.mem_or_eq hsplit).resolve_right hub, hu⟩
      rw [Flow.bodyItems, if_pos hold, (hpart b hb).eq_nil hscope hu hub, List.map_nil,
        List.nil_append]
      refine ih hsplit' fun x hx => ?_
      rw [hnext x hx]
      exact (or_iff_right fun hlead => hub (hu.unique hlead.self_of)).symm

lemma bodyItems_eq {part : BlockId → List Visit}
    (hpart : ∀ x, InScope f scope x → Part f settings scope edges expand x (part x)) :
    (Flow.of f).bodyItems number edges expand (blocksOf f scope) [] (blocksOf f scope)
      = ((blocksOf f scope).flatMap part).map .visit :=
  bodyItems_eq_of_split hscope hpart (List.nil_append _).symm (by simp)

/-- The visits made when a block comes up are of blocks that it leads. -/
lemma Part.isLeader (h : Part f settings scope edges expand x vs) (hx : InScope f scope x)
    {v : Visit} (hv : v ∈ vs) : InScope f scope v.block ∧ IsLeader f scope v.block x := by
  cases h with
  | header hheader =>
    obtain rfl := List.mem_singleton.1 hv
    exact ⟨hx, .self (loopsAround_of_header hscope hheader)⟩
  | block _ hout =>
    obtain rfl := List.mem_singleton.1 hv
    exact ⟨hx, .self hout⟩
  | @loop c k vs hk hxk _ hrun =>
    have hin : InScope f (some k) v.block :=
      hrun.forall_mem (q := fun v => InScope f (some k) v.block) (fun _ _ h => h.inScope) v hv
    have hvk : k.contains v.block = true := by simpa using hin.contains
    have hvscope := hk.inScope_of_contains hin.mem_order hvk
    exact ⟨hvscope, hxk ▸ (isLeader_header_iff hk hvscope).2 hvk⟩
  | visited => cases hv

/-- The visits of a block are made when its leader comes up. -/
lemma Part.count_eq (h : Part f settings scope edges expand x vs) (hb : InScope f scope b)
    (hlead : IsLeader f scope b x) :
    (vs.map Visit.block).count b = ∏ l ∈ loopsAround f scope b, l.unrollCount settings f := by
  have halone (hout : loopsAround f scope x = ∅) (edges : PhiEdges) :
      (List.map Visit.block [⟨x, edges⟩]).count b
        = ∏ l ∈ loopsAround f scope b, l.unrollCount settings f := by
    obtain rfl := hlead.eq_of_empty hout
    simp [hout]
  cases h with
  | header hheader => exact halone (loopsAround_of_header hscope hheader) _
  | block _ hout => exact halone hout _
  | @loop c k vs hk hxk _ hrun =>
    subst hxk
    have hbk := (isLeader_header_iff hk hb).1 hlead
    have hb' : InScope f (some k) b := inScope_iff.2 ⟨hb.mem_order, by simpa using hbk⟩
    rw [hrun.count_eq fun _ _ h => h.count_eq b hb',
      (hk.of_contains hb.mem_order hbk).loopsAround_eq hscope,
      Finset.prod_insert notMem_loopsAround_some]
  | visited hk hxk => exact absurd (hlead.self_of.unique (.header hk)) hxk

lemma Part.consistsOfRuns (h : Part f settings scope edges expand x vs)
    (hl : l ∈ (FlowGraph.of f).naturalLoops) (hin : scope.all l.isInside = true) :
    ConsistsOfRuns f settings l vs := by
  have halone (hout : loopsAround f scope x = ∅) (edges : PhiEdges) :
      ConsistsOfRuns f settings l [⟨x, edges⟩] := by
    refine .of_forall fun v hv => ?_
    obtain rfl := List.mem_singleton.1 hv
    by_contra hxl
    have hmem := mem_loopsAround.2 ⟨hl, hin, Bool.eq_true_of_not_eq_false hxl⟩
    exact absurd (hout ▸ hmem) (Finset.notMem_empty _)
  cases h with
  | header hheader => exact halone (loopsAround_of_header hscope hheader) _
  | block _ hout => exact halone hout _
  | @loop c k vs hk hxk _ hrun =>
    by_cases hlk : l = k
    · subst hlk
      have hrun := hrun.mono fun _ _ h => h.toIsPass
      simpa using ConsistsOfRuns.run hrun .nil
    · by_cases hlin : l.isInside k = true
      · exact .of_isRepeated hrun fun _ _ h => h.runs l hl (by simpa using hlin)
      · -- a loop that shares a block with `k` lies inside it
        refine .of_forall fun v hv => ?_
        by_contra hvl
        have hvl := Bool.eq_true_of_not_eq_false hvl
        have hv' : InScope f (some k) v.block :=
          hrun.forall_mem (q := fun v => InScope f (some k) v.block) (fun _ _ h => h.inScope) v hv
        have hk' := hk.of_contains hv'.mem_order (by simpa using hv'.contains)
        exact (hk'.largest l hl hvl hin).elim hlk hlin
  | visited => exact .nil

/-- The phis of a block that heads no loop read all edges. -/
lemma Part.edges_eq (h : Part f settings scope edges expand x vs) :
    ∀ v ∈ vs, (∀ l ∈ (FlowGraph.of f).naturalLoops, l.header ≠ v.block) → v.edges = .all := by
  intro v hv hout
  cases h with
  | header hheader =>
    obtain rfl := List.mem_singleton.1 hv
    cases scope with
    | none => simp at hheader
    | some l => exact absurd (by simpa using hheader) (hout l hscope.mem)
  | block =>
    obtain rfl := List.mem_singleton.1 hv
    rfl
  | loop hk _ _ hrun => exact hrun.forall_mem (fun _ _ h => h.edges_eq) v hv hout
  | visited => cases hv

omit hscope in
/-- A block is counted where it comes up. -/
lemma count_flatMap_eq {part : BlockId → List Visit} {bs : List BlockId} (hbs : bs.Nodup)
    (hu : u ∈ bs) (hout : ∀ x ∈ bs, x ≠ u → ∀ v ∈ part x, v.block ≠ b) :
    ((bs.flatMap part).map Visit.block).count b = ((part u).map Visit.block).count b := by
  induction bs with
  | nil => cases hu
  | cons x bs ih =>
    have hzero : ∀ xs : List Visit, (∀ v ∈ xs, v.block ≠ b) → (xs.map Visit.block).count b = 0 := by
      intro xs hxs
      refine List.count_eq_zero.2 fun hmem => ?_
      obtain ⟨v, hv, hvb⟩ := List.mem_map.1 hmem
      exact hxs v hv hvb
    obtain ⟨hx, hbs⟩ := List.nodup_cons.1 hbs
    rw [List.flatMap_cons, List.map_append, List.count_append]
    by_cases hxu : x = u
    · subst hxu
      rw [hzero (bs.flatMap part), add_zero]
      intro v hv
      obtain ⟨y, hy, hv⟩ := List.mem_flatMap.1 hv
      exact hout y (List.mem_cons_of_mem _ hy) (fun heq => hx (heq ▸ hy)) v hv
    · have hu := (List.mem_cons.1 hu).resolve_left (Ne.symm hxu)
      rw [hzero (part x) (hout x List.mem_cons_self hxu), zero_add,
        ih hbs hu fun y hy => hout y (List.mem_cons_of_mem _ hy)]

variable {part : BlockId → List Visit}
  (hpart : ∀ x, InScope f scope x → Part f settings scope edges expand x (part x))

include hpart

lemma isPass_flatMap : IsPass f settings scope edges ((blocksOf f scope).flatMap part) where
  inScope v hv := by
    obtain ⟨x, hx, hv⟩ := List.mem_flatMap.1 hv
    have hx := mem_blocksOf.1 hx
    exact ((hpart x hx).isLeader hscope hx hv).1
  count_eq b hb := by
    obtain ⟨u, hu⟩ := exists_isLeader hscope hb
    have hu' := hu.inScope hb
    rw [count_flatMap_eq (nodup_blocksOf f scope) (mem_blocksOf.2 hu')]
    · exact (hpart u hu').count_eq hscope hb hu
    · intro x hx hne v hv hvb
      have hx := mem_blocksOf.1 hx
      exact hne ((hvb ▸ ((hpart x hx).isLeader hscope hx hv).2).unique hu)
  precedes u v hu hv htarget hback hdisj := by
    have hlt := Flow.idxOf_order_lt hu.mem_order htarget hback
    -- what a block leads to comes up with it, so `v` does not come up before `u`
    have hnot {x₁ x₂ : BlockId} (hx₁ : InScope f scope x₁) (hx₂ : InScope f scope x₂)
        (hle : (Flow.of f).order.idxOf x₁ ≤ (Flow.of f).order.idxOf x₂) :
        ∀ y ∈ part x₁, ∀ z ∈ part x₂, ¬(y.block = v ∧ z.block = u) := by
      rintro y hy z hz ⟨rfl, rfl⟩
      have hlead := ((hpart x₁ hx₁).isLeader hscope hx₁ hy).2
      have hlead' := ((hpart x₂ hx₂).isLeader hscope hx₂ hz).2
      obtain rfl := hlead.eq_of_target htarget hdisj
      have hle' := hlead'.idxOf_le hu
      omega
    refine List.pairwise_flatMap.2 ⟨fun x hx => ?_, ?_⟩
    · have hx := mem_blocksOf.1 hx
      exact List.pairwise_of_forall_mem_list (hnot hx hx le_rfl)
    · refine (pairwise_blocksOf f scope).imp_of_mem fun {x₁ x₂} hx₁ hx₂ hlt' => ?_
      exact hnot (mem_blocksOf.1 hx₁) (mem_blocksOf.1 hx₂) hlt'.le
  head?_eq l hl := by
    subst hl
    obtain ⟨bs, hbs⟩ := exists_blocksOf_eq_cons hscope.mem
    have hx : InScope f (some l) l.header := mem_blocksOf.1 (hbs ▸ List.mem_cons_self)
    rw [hbs, List.flatMap_cons, (hpart _ hx).eq_of_header hscope (by simp)]
    rfl

/-- **Expanding a scope** makes one pass through its blocks in which the loops inside are expanded. -/
theorem isExpansion_flatMap :
    IsExpansion f settings scope edges ((blocksOf f scope).flatMap part) where
  toIsPass := isPass_flatMap hscope hpart
  runs l hl hin := by
    refine .flatMap fun x hx => ?_
    exact (hpart x (mem_blocksOf.1 hx)).consistsOfRuns hscope hl hin
  edges_eq v hv hout := by
    obtain ⟨x, hx, hv⟩ := List.mem_flatMap.1 hv
    exact (hpart x (mem_blocksOf.1 hx)).edges_eq hscope v hv hout

end Part

/-! ## The schedule -/

section Unrolled

variable (hsettings : settings.lipschitzLoops = false)

include hsettings

lemma loopItems_succ (hl : (LoopForest.of (FlowGraph.of f)).get? s = some l) (depth : ℕ)
    (members : List BlockId) : (Flow.of f).loopItems settings f (depth + 1) s members
      = (Flow.of f).bodyItems (some s) .entry ((Flow.of f).loopItems settings f depth) members []
          members
        ++ (List.replicate (l.unrollCount settings f - 1) ((Flow.of f).bodyItems (some s) .latch
          ((Flow.of f).loopItems settings f depth) members [] members)).flatten := by
  have hcount := settings.unrollCount_filter_pos ((f.block? l.header).bind Block.unrollHint)
    ((f.block? l.header).bind Block.tripCount)
  simp only [Flow.loopItems, Flow.loops_of, hl, Loop.unrollCount, ← hcount]
  split
  · simp [hsettings]
  · rfl

/-- A loop is expanded to as many passes as it is unrolled, if the depth suffices for the loops
inside it. -/
lemma exists_loopItems_eq {depth : ℕ} (hl : (LoopForest.of (FlowGraph.of f)).IsLast (· = l) s)
    (hdepth : (LoopForest.of (FlowGraph.of f)).loops.size - s ≤ depth) :
    ∃ vs, (Flow.of f).loopItems settings f depth s (blocksOf f (some l)) = vs.map .visit ∧
      IsRepeated (IsExpansion f settings (some l)) (l.unrollCount settings f) vs := by
  obtain ⟨l, hget, rfl⟩ := hl.exists_get?
  induction depth generalizing l s with
  | zero =>
    have := lt_size_of_get? hget
    omega
  | succ depth ih =>
    have hscope : IsScope (FlowGraph.of f) (some s) (some l) := .loop hl
    have hexpand : ExpandsLoops f settings (some l) ((Flow.of f).loopItems settings f depth) := by
      intro x c k hk
      have hlt := lt_of_isInside hk.get? hget (by simpa using hk.within)
      exact ih (by omega) k hk.get? hk.isLast
    have hpass : ∀ edges, ∃ vs, (Flow.of f).bodyItems (some s) edges
        ((Flow.of f).loopItems settings f depth) (blocksOf f (some l)) [] (blocksOf f (some l))
          = vs.map .visit ∧ IsExpansion f settings (some l) edges vs := by
      intro edges
      choose! part hpart using fun x => exists_part (x := x) hscope edges hexpand
      exact ⟨_, bodyItems_eq hscope hpart, isExpansion_flatMap hscope hpart⟩
    obtain ⟨first, hfirst, hfirst'⟩ := hpass .entry
    obtain ⟨later, hlater, hlater'⟩ := hpass .latch
    have hpos : 1 ≤ l.unrollCount settings f := settings.one_le_unrollCount _ _
    refine ⟨first ++ (List.replicate (l.unrollCount settings f - 1) later).flatten, ?_,
      first, _, rfl, ?_, hfirst', fun pass hpass => ?_⟩
    · rw [loopItems_succ hsettings hget, hfirst, hlater, List.map_append, List.map_flatten,
        List.map_replicate]
    · rw [List.length_replicate]
      omega
    · exact (List.eq_of_mem_replicate hpass) ▸ hlater'

/-- **The schedule is the expansion of the loops** if no closed forms are used.  It consists of
visits.  Each reachable block is visited as often as the unroll counts of the loops that contain it
multiply to, and no other block is.  The blocks of a loop come up in runs, in which the loop is gone
through as often as it is unrolled, each time from the header on, which reads the edges that enter
the loop the first time and those from inside afterwards; the phis of blocks that head no loop read
all edges.  Within each pass through the innermost loop that contains both ends of an edge, or
within the whole schedule if there is none, the visits of the source come before those of the
target, unless control can pass from the target to the source. -/
theorem exists_schedule_eq : ∃ vs, (Flow.of f).schedule settings f = vs.map .visit ∧
    IsExpansion f settings none .all vs := by
  have hscope : IsScope (FlowGraph.of f) none none := .whole
  have hblocks : (Flow.of f).order = blocksOf f none := (List.filter_true _).symm
  have hexpand : ExpandsLoops f settings none
      ((Flow.of f).loopItems settings f (Flow.of f).loops.loops.size) := by
    intro x c k hk
    exact exists_loopItems_eq hsettings hk.isLast (Nat.sub_le _ _)
  choose! part hpart using fun x => exists_part (x := x) hscope .all hexpand
  refine ⟨_, ?_, isExpansion_flatMap hscope hpart⟩
  rw [Flow.schedule]
  simp only [hblocks]
  exact bodyItems_eq hscope hpart

end Unrolled

/-! ## A loop inside a loop -/

namespace NestedLoops

/-- A loop that runs twice, in which a block that is to be repeated twice follows the header. -/
def function : Function ℝ where
  id := ⟨0⟩
  name := "nested"
  params := #[⟨"c", .int 1, none⟩]
  retTy := .void
  blocks := #[⟨⟨0⟩, "entry", [⟨0⟩], none, none⟩, ⟨⟨1⟩, "outer", [⟨1⟩], none, some 2⟩,
    ⟨⟨2⟩, "inner", [⟨2⟩], some 2, none⟩, ⟨⟨3⟩, "exit", [⟨3⟩], none, none⟩]
  insts := #[⟨⟨0⟩, ⟨0⟩, "", .void, .br ⟨1⟩, none, none⟩,
    ⟨⟨1⟩, ⟨1⟩, "", .void, .condBr (.arg 0) ⟨2⟩ ⟨3⟩, none, none⟩,
    ⟨⟨2⟩, ⟨2⟩, "", .void, .condBr (.arg 0) ⟨2⟩ ⟨1⟩, none, none⟩,
    ⟨⟨3⟩, ⟨3⟩, "", .void, .ret none, none, none⟩]
  maxRecursion := none
  entryPoint := false

/-- The settings without closed forms. -/
def unrolled : Settings := { lipschitzLoops := false }

/-- Two runs through the inner loop in one run through the outer loop. -/
def visits : List Visit :=
  [⟨⟨0⟩, .all⟩, ⟨⟨1⟩, .entry⟩, ⟨⟨2⟩, .entry⟩, ⟨⟨2⟩, .latch⟩, ⟨⟨1⟩, .latch⟩, ⟨⟨2⟩, .entry⟩,
    ⟨⟨2⟩, .latch⟩, ⟨⟨3⟩, .all⟩]

lemma schedule_eq : (Flow.of function).schedule unrolled function = visits.map .visit := by
  decide +kernel

/-- The visits are the expansion of the two loops. -/
theorem isExpansion_visits :
    unrolled.lipschitzLoops = false ∧ IsExpansion function unrolled none .all visits := by
  have hsettings : unrolled.lipschitzLoops = false := rfl
  obtain ⟨vs, hvs, hexpansion⟩ := exists_schedule_eq (f := function) hsettings
  have hvisit : Function.Injective ScheduleItem.visit := fun _ _ h => ScheduleItem.visit.inj h
  obtain rfl : vs = visits := hvisit.list_map (hvs.symm.trans schedule_eq)
  exact ⟨hsettings, hexpansion⟩

end NestedLoops

end Roundoff
