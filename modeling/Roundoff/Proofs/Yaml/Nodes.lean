/-
# The nodes of lines

The tokens of lines are read as the pairs of a mapping.  What is read of a document depends on the
tokens alone, as long as there are no anchors, and leaves the anchors as they are.
-/
import Mathlib
import Roundoff.Proofs.Yaml.Lines
import Roundoff.Yaml.Node

namespace Roundoff.Yaml

variable {α β : Type} {ts ts' ts'' rest : List Token} {x : α} {y : β}

namespace Reading

/-! ## Readings without anchors -/

/-- The tokens `ts` are read as `x`, and the tokens `rest` are left.  Nothing changes besides but
the number of nodes. -/
def Reads (m : Reading α) (ts : List Token) (x : α) (rest : List Token) : Prop :=
  ∀ r : NodeReader, r.tokens = ts →
    ∃ nodes, m.run r = some (x, { r with tokens := rest, nodes := nodes })

lemma reads_pure (x : α) : Reads (pure x) ts x ts := fun r hr => ⟨r.nodes, by rw [← hr]; rfl⟩

lemma Reads.bind {m : Reading α} {f : α → Reading β} (hm : m.Reads ts x ts')
    (hf : (f x).Reads ts' y ts'') : Reads (m >>= f) ts y ts'' := by
  intro r hr
  obtain ⟨nodes, hrun⟩ := hm r hr
  obtain ⟨nodes', hrun'⟩ := hf { r with tokens := ts', nodes := nodes } rfl
  refine ⟨nodes', ?_⟩
  rw [StateT.run_bind, hrun]
  exact hrun'

lemma reads_peek? : Reads peek? ts ts.head? ts := fun r hr => ⟨r.nodes, by rw [← hr]; rfl⟩

lemma reads_skip {t : Token} : Reads skip (t :: ts) () ts := fun r hr => ⟨r.nodes, by
  change some ((), { r with tokens := r.tokens.tail }) = _
  rw [hr]
  rfl⟩

lemma reads_begin : Reads (begin none) ts () ts := fun r hr => ⟨r.nodes + 1, by rw [← hr]; rfl⟩

lemma reads_isAt (us : List Token) : Reads (isAt us) ts (ts.head?.any us.contains) ts :=
  reads_peek?.bind (reads_pure _)

/-- There are no properties in front of a token that is none. -/
lemma reads_properties {t : Token} (hanchor : ∀ name, t ≠ .anchor name) (htag : ∀ g, t ≠ .tag g) :
    Reads properties (t :: ts) (none, none) (t :: ts) := by
  refine reads_peek?.bind ?_
  rw [List.head?_cons]
  cases t with
  | anchor name => exact absurd rfl (hanchor name)
  | tag g => exact absurd rfl (htag g)
  | _ => exact reads_pure _

/-! ## Nodes -/

/-- The node of a scalar without quotes. -/
def wordNode (text : String) : Node := .scalar none .plain text

lemma reads_word (text : String) (fuel : ℕ) (inBlock inMapping : Bool) :
    (node (fuel + 1) inBlock inMapping).Reads (.scalar .plain text :: rest)
    (wordNode text) rest := by
  rw [node]
  refine reads_peek?.bind ?_
  refine (reads_properties (t := .scalar .plain text) (fun _ => nofun) fun _ => nofun).bind ?_
  refine reads_begin.bind ?_
  refine reads_peek?.bind ?_
  exact reads_skip.bind (reads_pure _)

/-- A mapping is read as its pairs. -/
lemma reads_mapping {pairs : List (Node × Node)} {fuel : ℕ}
    (hpairs : (blockPairs fuel).Reads ts pairs rest) (inMapping : Bool) :
    (node (fuel + 1) true inMapping).Reads (.blockMapping :: ts) (.mapping none pairs) rest := by
  rw [node]
  refine reads_peek?.bind ?_
  refine (reads_properties (t := .blockMapping) (fun _ => nofun) fun _ => nofun).bind ?_
  refine reads_begin.bind ?_
  refine reads_peek?.bind ?_
  simp only [List.head?_cons]
  rw [if_neg (by simp), if_neg (by simp), if_pos (by simp)]
  exact reads_skip.bind (hpairs.bind (reads_pure _))

/-- A pair is read from a word and a value that is not left out. -/
lemma reads_pair {value : Node} {pairs : List (Node × Node)} {fuel : ℕ} (name : String)
    (hgap : ts.head?.any blockGap.contains = false)
    (hvalue : (node fuel true true).Reads ts value ts')
    (hpairs : (blockPairs (fuel + 1)).Reads ts' pairs rest) :
    (blockPairs (fuel + 2)).Reads (.key :: .scalar .plain name :: .value :: ts)
      ((wordNode name, value) :: pairs) rest := by
  have hblock : (blockValue (fuel + 1)).Reads (.value :: ts) value ts' := by
    rw [blockValue]
    refine (reads_isAt _).bind ?_
    rw [List.head?_cons]
    refine reads_skip.bind ((reads_isAt _).bind ?_)
    rw [hgap]
    exact hvalue
  rw [blockPairs]
  refine reads_peek?.bind ?_
  refine reads_skip.bind ((reads_isAt _).bind ?_)
  exact (reads_word name fuel true true).bind (hblock.bind (hpairs.bind (reads_pure _)))

lemma reads_noPairs (fuel : ℕ) : (blockPairs (fuel + 1)).Reads (.blockEnd :: rest) [] rest := by
  rw [blockPairs]
  exact reads_peek?.bind (reads_skip.bind (reads_pure _))

/-- The pair of nodes of a line. -/
def lineNodes (l : String × String) : Node × Node := (wordNode l.1, wordNode l.2)

/-- A line in front of other pairs. -/
lemma reads_line {pairs : List (Node × Node)} {fuel : ℕ} (l : String × String)
    (hpairs : (blockPairs (fuel + 2)).Reads ts pairs rest) :
    (blockPairs (fuel + 3)).Reads (lineTokens l ++ ts) (lineNodes l :: pairs) rest :=
  reads_pair l.1 rfl (reads_word l.2 fuel true true) hpairs

lemma reads_lines (ls : List (String × String)) (fuel : ℕ) :
    (blockPairs (fuel + ls.length + 2)).Reads (ls.flatMap lineTokens ++ .blockEnd :: rest)
      (ls.map lineNodes) rest := by
  induction ls with
  | nil => exact reads_noPairs (fuel + 1)
  | cons l ls ih =>
    rw [List.flatMap_cons, List.append_assoc]
    exact reads_line l ih

end Reading

/-! ## Documents -/

/-- A document whose tokens are read as a block mapping. -/
lemma ofTokens?_blockMapping {root : Node}
    (hroot : (Reading.node (4 * (ts.length + 1) + 4) true false).Reads
      (.blockMapping :: ts) root []) :
    Document.ofTokens? (.blockMapping :: ts) = some ⟨root, ∅⟩ := by
  obtain ⟨nodes, hrun⟩ := hroot { tokens := .blockMapping :: ts, handles := defaultHandles } rfl
  have hdocument : documentOf? true defaultHandles (.blockMapping :: ts)
      = some (⟨root, ∅⟩, []) := by
    rw [documentOf?]
    change Option.bind ((Reading.node (4 * (ts.length + 1) + 4) true false).run
      { tokens := .blockMapping :: ts, handles := defaultHandles }) _ = _
    rw [hrun]
    rfl
  have hhandles : handlesOf? [] = some defaultHandles := by simp [handlesOf?]
  rw [Document.ofTokens?]
  change Option.bind (handlesOf? []) (fun handles =>
    Option.bind (documentOf? true handles (.blockMapping :: ts)) _) = _
  rw [hhandles, Option.bind_some, hdocument]
  rfl

open Yaml.Reading in
/-- **The node of a document** with a line and a section of lines. -/
theorem ofTokens?_section (first : String × String) (name : String) (ls : List (String × String)) :
    Document.ofTokens? (.blockMapping :: lineTokens first
      ++ [.key, .scalar .plain name, .value, .blockMapping]
      ++ ls.flatMap lineTokens ++ [.blockEnd, .blockEnd])
    = some ⟨.mapping none [lineNodes first, (wordNode name, .mapping none (ls.map lineNodes))],
        ∅⟩ := by
  let sectionTokens : List Token := ls.flatMap lineTokens ++ [.blockEnd, .blockEnd]
  let ts : List Token :=
    lineTokens first ++ .key :: .scalar .plain name :: .value :: .blockMapping ::
    sectionTokens
  -- enough steps are allowed for
  obtain ⟨fuel, hfuel⟩ :
      ∃ fuel, 4 * (ts.length + 1) + 4 = fuel + ls.length + 2 + 1 + 3 + 1 := by
    have hlines : ls.length ≤ (ls.flatMap lineTokens).length := by
      rw [List.length_flatMap]
      simp [lineTokens]
      omega
    have hlength : ls.length ≤ ts.length := by
      simp only [ts, sectionTokens, List.length_append, List.length_cons]
      omega
    exact ⟨4 * (ts.length + 1) + 4 - (ls.length + 2 + 1 + 3 + 1), by omega⟩
  have hsection : (node (fuel + ls.length + 2 + 1) true true).Reads (.blockMapping :: sectionTokens)
      (.mapping none (ls.map lineNodes)) [.blockEnd] :=
    reads_mapping (reads_lines ls fuel) true
  have hroot : (node (4 * (ts.length + 1) + 4) true false).Reads (.blockMapping :: ts)
      (.mapping none [lineNodes first, (wordNode name, .mapping none (ls.map lineNodes))]) [] := by
    rw [hfuel]
    exact reads_mapping (reads_line first (reads_pair name rfl hsection (reads_noPairs _))) false
  have hts : (.blockMapping :: lineTokens first
      ++ [.key, .scalar .plain name, .value, .blockMapping]
      ++ ls.flatMap lineTokens ++ [.blockEnd, .blockEnd] : List Token) = .blockMapping :: ts := by
    simp [ts, sectionTokens]
  rw [hts]
  exact ofTokens?_blockMapping hroot

end Roundoff.Yaml
