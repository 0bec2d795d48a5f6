import Cadvisor.Metrics.Output

/-!
# Where a pushed series ends up

A line of the text starts with the head of at most one series, so the lines of a
series can be read off the text: the first push of it, once, if its family is in
the table, and nothing otherwise.
-/

set_option autoImplicit false

namespace Cadvisor

open Output

def Push.Plain (p : Push) : Prop := PlainName p.family ∧ ∀ label ∈ p.labels, PlainName label.1

def Push.SameSeries (p q : Push) : Prop := q.family = p.family ∧ q.labels = p.labels

instance (p q : Push) : Decidable (p.SameSeries q) :=
  inferInstanceAs (Decidable (q.family = p.family ∧ q.labels = p.labels))

def Push.text (ryu : Ryu) (p : Push) : String := sampleText ryu p.family p.labels p.value p.ts

def Push.head (p : Push) : String := seriesHead p.family p.labels

def linesOf (p : Push) (lines : List String) : List String :=
  lines.filter fun line => Str.startsWith line p.head

theorem linesOf_cons_of_startsWith {p : Push} {line : String} (lines : List String)
    (starts : Str.startsWith line p.head = true) :
    linesOf p (line :: lines) = line :: linesOf p lines :=
  List.filter_cons_of_pos starts

theorem linesOf_cons_of_not_startsWith {p : Push} {line : String} (lines : List String)
    (other : ¬ Str.startsWith line p.head = true) : linesOf p (line :: lines) = linesOf p lines :=
  List.filter_cons_of_neg other

theorem head_start {p : Push} (plain : p.Plain) :
    ∃ c rest, p.head.toList = c :: rest ∧ c ≠ '#' := by
  unfold Push.head seriesHead
  rw [String.append_assoc, String.toList_append]
  cases spelled : p.family.toList with
  | cons c rest =>
      refine ⟨c, _, List.cons_append, fun isHash => ?_⟩
      have nameChar := plain.1 c (by simp [spelled])
      exact absurd (isHash ▸ nameChar) (by decide)
  | nil =>
      unfold labelSet
      split_ifs
      · exact ⟨' ', [], rfl, by decide⟩
      · refine ⟨'{', (labelsText p.labels ++ "\x7d" ++ " ").toList, ?_, by decide⟩
        simp only [String.toList_append, List.append_assoc, List.nil_append]
        rfl

theorem not_startsWith_head {p : Push} (plain : p.Plain) {line : String}
    (other : line = "" ∨ line.toList.head? = some '#') : ¬ Str.startsWith line p.head = true := by
  obtain ⟨c, rest, spelled, notHash⟩ := head_start plain
  rw [Str.startsWith, spelled]
  intro isPrefix
  obtain ⟨tail, same⟩ := List.isPrefixOf_iff_prefix.mp isPrefix
  rcases other with isEmpty | comment
  · rw [isEmpty, List.cons_append] at same
    exact absurd same (List.cons_ne_nil _ _)
  · rw [← same, List.cons_append, List.head?_cons] at comment
    exact notHash (Option.some.inj comment)

theorem linesOf_samples (ryu : Ryu) {p : Push} (pPlain : p.Plain) {family : String}
    (familyPlain : PlainName family) (series : List Series)
    (plain : ∀ s ∈ series, ∀ label ∈ s.labels, PlainName label.1) :
    linesOf p (series.map fun s => sampleText ryu family s.labels s.value s.ts) =
      if family = p.family then
        (series.filter fun s => s.labels = p.labels).map fun s =>
          sampleText ryu family s.labels s.value s.ts
      else [] := by
  induction series with
  | nil => simp [linesOf]
  | cons s rest ih =>
      have test : Str.startsWith (sampleText ryu family s.labels s.value s.ts) p.head = true ↔
          family = p.family ∧ s.labels = p.labels :=
        sampleText_startsWith ryu pPlain.1 familyPlain pPlain.2
          (plain s (List.mem_cons_self ..)) s.value s.ts
      have others := ih fun t member => plain t (List.mem_cons_of_mem _ member)
      rw [List.map_cons]
      by_cases here : family = p.family
      · rw [if_pos here] at others ⊢
        by_cases same : s.labels = p.labels
        · rw [linesOf_cons_of_startsWith _ (test.mpr ⟨here, same⟩), others,
            List.filter_cons_of_pos (by simpa using same), List.map_cons]
        · rw [linesOf_cons_of_not_startsWith _ (fun starts => same (test.mp starts).2), others,
            List.filter_cons_of_neg (by simpa using same)]
      · rw [if_neg here] at others ⊢
        rw [linesOf_cons_of_not_startsWith _ (fun starts => here (test.mp starts).1), others]

def firstOf (pushes : List Push) (p : Push) : List Push :=
  (pushes.filter fun q => p.SameSeries q).take 1

theorem linesOf_blockOf (ryu : Ryu) {pushes : List Push} (plain : ∀ q ∈ pushes, q.Plain)
    {p : Push} (pPlain : p.Plain) {family : Family} (familyPlain : PlainName family.name) :
    linesOf p ((blockOf pushes family).toList.flatMap (Block.lines ryu)) =
      if family.name = p.family then (firstOf pushes p).map (Push.text ryu) else [] := by
  have helpLine : ¬ Str.startsWith ("# HELP " ++ family.name ++ " " ++ family.help) p.head = true :=
    not_startsWith_head pPlain (Or.inr (by
      simp only [String.toList_append, List.append_assoc]
      rfl))
  have typeLine : ¬ Str.startsWith ("# TYPE " ++ family.name ++ " " ++ family.kind.asStr) p.head =
      true :=
    not_startsWith_head pPlain (Or.inr (by
      simp only [String.toList_append, List.append_assoc]
      rfl))
  have bucket : ((pushes.filter fun q => q.family = family.name).map Push.series).filter
      (fun s => s.labels = p.labels) =
        (pushes.filter fun q => q.family = family.name ∧ q.labels = p.labels).map Push.series := by
    rw [List.filter_map, List.filter_filter]
    refine congrArg (List.map Push.series) (List.filter_congr fun q _ => ?_)
    rw [Bool.eq_iff_iff, Bool.and_eq_true, decide_eq_true_iff, decide_eq_true_iff,
      Function.comp_apply, decide_eq_true_iff, and_comm]
    exact Iff.rfl
  have samplesPlain : ∀ s ∈ written ((pushes.filter fun q => q.family = family.name).map
      Push.series), ∀ label ∈ s.labels, PlainName label.1 := by
    intro s member
    obtain ⟨q, inBucket, rfl⟩ := List.mem_map.mp (mem_written member)
    exact (plain q (List.mem_filter.mp inBucket).1).2
  unfold blockOf
  dsimp only
  by_cases nothing : (pushes.filter fun q => q.family = family.name).map Push.series = []
  · rw [if_pos nothing]
    have none : ∀ q ∈ pushes, q.family ≠ family.name := by simpa using nothing
    split_ifs with here
    · have noFirst : pushes.filter (fun q => p.SameSeries q) = [] := by
        rw [List.filter_eq_nil_iff]
        intro q member same
        exact none q member ((of_decide_eq_true same).1.trans here.symm)
      rw [firstOf, noFirst]
      rfl
    · rfl
  · rw [if_neg nothing, Option.toList_some, List.flatMap_singleton, Block.lines,
      linesOf_cons_of_not_startsWith _ helpLine, linesOf_cons_of_not_startsWith _ typeLine,
      linesOf_samples ryu pPlain familyPlain _ samplesPlain]
    split_ifs with here
    · rw [written_filter_labels, bucket, here, ← List.map_take, List.map_map, firstOf]
      refine List.map_congr_left fun q member => ?_
      have isFirst := (List.mem_filter.mp (List.mem_of_mem_take member)).2
      obtain ⟨familyIs, _⟩ := of_decide_eq_true isFirst
      simp [Push.text, Push.series, familyIs]
    · rfl

theorem linesOf_blocks (ryu : Ryu) {pushes : List Push} (plain : ∀ q ∈ pushes, q.Plain)
    {p : Push} (pPlain : p.Plain) :
    linesOf p ((blocks pushes).flatMap (Block.lines ryu)) =
      if p.family ∈ familyNames then (firstOf pushes p).map (Push.text ryu) else [] := by
  have table : ∀ fs : List Family, (fs.map Family.name).Nodup →
      (∀ family ∈ fs, PlainName family.name) →
      linesOf p ((fs.filterMap (blockOf pushes)).flatMap (Block.lines ryu)) =
        if p.family ∈ fs.map Family.name then (firstOf pushes p).map (Push.text ryu) else [] := by
    intro fs
    induction fs with
    | nil =>
        intro _ _
        simp [linesOf]
    | cons family rest ih =>
        intro distinct namesPlain
        obtain ⟨fresh, restDistinct⟩ := List.nodup_cons.mp distinct
        have first := linesOf_blockOf ryu plain pPlain (namesPlain family (List.mem_cons_self ..))
        have others := ih restDistinct fun f member => namesPlain f (List.mem_cons_of_mem _ member)
        have cut : linesOf p (((family :: rest).filterMap (blockOf pushes)).flatMap
            (Block.lines ryu)) =
            linesOf p ((blockOf pushes family).toList.flatMap (Block.lines ryu)) ++
              linesOf p ((rest.filterMap (blockOf pushes)).flatMap (Block.lines ryu)) := by
          unfold linesOf
          rw [← List.filter_append, List.filterMap_cons]
          cases blockOf pushes family <;> simp
        rw [cut, first, others, List.map_cons]
        by_cases here : family.name = p.family
        · have notLater : p.family ∉ rest.map Family.name := here ▸ fresh
          rw [if_pos here, if_neg notLater, if_pos (here ▸ List.mem_cons_self ..), List.append_nil]
        · rw [if_neg here, List.nil_append]
          have step : p.family ∈ family.name :: rest.map Family.name ↔
              p.family ∈ rest.map Family.name := by simp [Ne.symm here]
          simp only [step]
  exact table Cadvisor.families familyNames_nodup fun family member =>
    (families_plain family member).1

/-- Exactly one line is about the series, and it is the one of its first push. -/
def ServedOnce (ryu : Ryu) (pushes : List Push) (lines : List String) (p : Push) : Prop :=
  ∃ first, pushes.find? (fun q => p.SameSeries q) = some first ∧
    linesOf p lines = [first.text ryu]

theorem servedOnce_iff_listed (ryu : Ryu) {pushes : List Push} (plain : ∀ q ∈ pushes, q.Plain)
    {p : Push} (member : p ∈ pushes) :
    ServedOnce ryu pushes ((blocks pushes).flatMap (Block.lines ryu) ++ [""]) p ↔
      p.family ∈ familyNames := by
  have pPlain := plain p member
  have lines : linesOf p ((blocks pushes).flatMap (Block.lines ryu) ++ [""]) =
      if p.family ∈ familyNames then (firstOf pushes p).map (Push.text ryu) else [] := by
    rw [← linesOf_blocks ryu plain pPlain]
    have lastLine : linesOf p [""] = [] :=
      linesOf_cons_of_not_startsWith [] (not_startsWith_head pPlain (Or.inl rfl))
    unfold linesOf at lastLine ⊢
    rw [List.filter_append, lastLine, List.append_nil]
  have found : ∃ first, pushes.find? (fun q => p.SameSeries q) = some first := by
    rw [← Option.isSome_iff_exists, List.find?_isSome]
    exact ⟨p, member, decide_eq_true ⟨rfl, rfl⟩⟩
  obtain ⟨first, isFirst⟩ := found
  have firstIs : firstOf pushes p = [first] := by
    rw [firstOf, List.take_one, List.head?_filter, isFirst, Option.toList_some]
  unfold ServedOnce
  rw [lines, firstIs]
  constructor
  · intro served
    obtain ⟨_, _, once⟩ := served
    by_contra missing
    rw [if_neg missing] at once
    exact absurd once (List.cons_ne_nil _ _).symm
  · intro listed
    rw [if_pos listed]
    exact ⟨first, isFirst, rfl⟩

end Cadvisor
