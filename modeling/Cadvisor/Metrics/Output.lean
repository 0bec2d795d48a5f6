import Cadvisor.Lib.SortedMap
import Cadvisor.Lib.SortedSeq
import Cadvisor.Metrics.Encode
import Cadvisor.Metrics.Families
import Mathlib.Data.List.Lex
import Mathlib.Data.Prod.Lex
import Mathlib.Data.String.Basic

/-!
# Collecting series and writing them out

Series are pushed in any order and kept by family.  The text goes through the
family table: a family that has series becomes one block, sorted by labels, each
label list once.  A family that is not in the table is not written.
-/

set_option autoImplicit false

namespace Cadvisor

open SortedSeq

structure Series where
  labels : List (String × String)
  value : Float
  ts : Option Int

/-- The arguments of one `push`. -/
structure Push where
  family : String
  labels : List (String × String)
  value : Float
  ts : Option Int

def Push.series (p : Push) : Series := ⟨p.labels, p.value, p.ts⟩

/-- Label lists are compared entry by entry, name before value. -/
def Series.key (s : Series) : List (String ×ₗ String) := s.labels.map toLex

theorem key_eq_iff (a b : Series) : a.key = b.key ↔ a.labels = b.labels := by
  unfold Series.key
  exact (List.map_injective_iff.mpr toLex.injective).eq_iff

structure Output where
  families : SortedMap String (List Series)

namespace Output

def empty : Output := ⟨SortedMap.empty⟩

def push (out : Output) (p : Push) : Output :=
  ⟨out.families.insert p.family ((out.families.get? p.family).getD [] ++ [p.series])⟩

def sampleLine (ryu : Ryu) (name : String) (s : Series) : String :=
  sampleText ryu name s.labels s.value s.ts ++ "\n"

def headerLines (family : Family) : String :=
  "# HELP " ++ family.name ++ " " ++ family.help ++ "\n# TYPE " ++ family.name ++ " " ++
    family.kind.asStr ++ "\n"

def written (series : List Series) : List Series :=
  dedupBy (fun later first => later.labels = first.labels) (stableSort Series.key series)

/-- One round of the loop over the family table. -/
def renderFamily (ryu : Ryu) (state : Output × String) (family : Family) : Output × String :=
  match state.1.families.get? family.name with
  | none => state
  | some series =>
      (⟨state.1.families.erase family.name⟩,
        (written series).foldl (fun buf s => buf ++ sampleLine ryu family.name s)
          (state.2 ++ headerLines family))

def render (ryu : Ryu) (out : Output) (buf : String) : String :=
  (Cadvisor.families.foldl (renderFamily ryu) (out, buf)).2

/-! ## The text as blocks of lines -/

structure Block where
  family : Family
  samples : List Series

def Block.lines (ryu : Ryu) (b : Block) : List String :=
  ("# HELP " ++ b.family.name ++ " " ++ b.family.help) ::
    ("# TYPE " ++ b.family.name ++ " " ++ b.family.kind.asStr) ::
      b.samples.map fun s => sampleText ryu b.family.name s.labels s.value s.ts

def unlines (lines : List String) : String :=
  String.ofList (lines.flatMap fun line => line.toList ++ ['\n'])

@[simp] theorem unlines_append (front back : List String) :
    unlines (front ++ back) = unlines front ++ unlines back := by
  rw [← String.toList_inj]
  simp [unlines]

/-- Lines without line feeds are what splitting their text gives. -/
theorem split_unlines (lines : List String) (plain : ∀ line ∈ lines, '\n' ∉ line.toList) :
    Str.split (unlines lines) '\n' = lines ++ [""] := by
  have chars : lines.flatMap (fun line => line.toList ++ ['\n']) =
      (lines.map String.toList).flatMap fun part => part ++ ['\n'] := by
    rw [List.flatMap_map]
  rw [Str.split, unlines, String.toList_ofList, chars,
    Str.splitOn_terminated (List.forall_mem_map.mpr plain), List.map_append, List.map_map]
  simp [Function.comp_def]

def blockOf (pushes : List Push) (family : Family) : Option Block :=
  let series := (pushes.filter fun p => p.family = family.name).map Push.series
  if series = [] then none else some ⟨family, written series⟩

def blocks (pushes : List Push) : List Block := Cadvisor.families.filterMap (blockOf pushes)

theorem get?_foldl_push (pushes : List Push) (name : String) :
    (pushes.foldl push empty).families.get? name =
      let series := (pushes.filter fun p => p.family = name).map Push.series
      if series = [] then none else some series := by
  induction pushes using List.reverseRecOn with
  | nil => rfl
  | append_singleton pushes p ih =>
      rw [List.foldl_concat, push, SortedMap.get?_insert]
      by_cases mine : name = p.family
      · subst mine
        have grown : ((pushes ++ [p]).filter fun q => q.family = p.family).map Push.series =
            (pushes.filter fun q => q.family = p.family).map Push.series ++ [p.series] := by
          simp
        have old : ((pushes.foldl push empty).families.get? p.family).getD [] =
            (pushes.filter fun q => q.family = p.family).map Push.series := by
          rw [ih]
          dsimp only
          split_ifs with nothing
          · rw [nothing]
            rfl
          · rfl
        simp only [if_true, grown, old]
        simp
      · have same : ((pushes ++ [p]).filter fun q => q.family = name).map Push.series =
            (pushes.filter fun q => q.family = name).map Push.series := by
          simp [Ne.symm mine]
        simp only [if_neg mine, ih, same]

theorem unlines_cons (line : String) (rest : List String) :
    unlines (line :: rest) = line ++ "\n" ++ unlines rest := by
  have lineFeed : "\n".toList = ['\n'] := rfl
  rw [← String.toList_inj]
  simp [unlines, lineFeed]

theorem foldl_sampleLine (ryu : Ryu) (name : String) (series : List Series) (buf : String) :
    series.foldl (fun buf s => buf ++ sampleLine ryu name s) buf =
      buf ++ unlines (series.map fun s => sampleText ryu name s.labels s.value s.ts) := by
  induction series generalizing buf with
  | nil => simp [unlines]
  | cons s rest ih =>
      rw [List.foldl_cons, ih, List.map_cons, unlines_cons, sampleLine]
      simp only [String.append_assoc]

theorem headerLines_eq (ryu : Ryu) (b : Block) :
    headerLines b.family ++ unlines (b.samples.map fun s =>
      sampleText ryu b.family.name s.labels s.value s.ts) = unlines (b.lines ryu) := by
  have help : "\n# TYPE " = "\n" ++ "# TYPE " := by decide
  rw [Block.lines, unlines_cons, unlines_cons]
  delta headerLines
  simp only [help, String.append_assoc]

/-- The text is the blocks of the table's families, one after the other. -/
theorem render_eq_blocks (ryu : Ryu) (pushes : List Push) (buf : String) :
    render ryu (pushes.foldl push empty) buf =
      buf ++ unlines ((blocks pushes).flatMap (Block.lines ryu)) := by
  have loop : ∀ (table : List Family) (out : Output) (buf : String),
      (table.map Family.name).Nodup →
      (∀ family ∈ table, out.families.get? family.name =
        (pushes.foldl push empty).families.get? family.name) →
      (table.foldl (renderFamily ryu) (out, buf)).2 =
        buf ++ unlines ((table.filterMap (blockOf pushes)).flatMap (Block.lines ryu)) := by
    intro table
    induction table with
    | nil =>
        intro out buf _ _
        simp [unlines]
    | cons family rest ih =>
        intro out buf distinct buckets
        obtain ⟨fresh, restDistinct⟩ := List.nodup_cons.mp distinct
        have bucket := buckets family (List.mem_cons_self ..)
        rw [get?_foldl_push] at bucket
        dsimp only at bucket
        rw [List.foldl_cons, List.filterMap_cons, blockOf]
        by_cases nothing : (pushes.filter fun p => p.family = family.name).map Push.series = []
        · rw [if_pos nothing] at bucket ⊢
          have skipped : renderFamily ryu (out, buf) family = (out, buf) := by
            simp only [renderFamily, bucket]
          rw [skipped]
          exact ih out buf restDistinct fun f member => buckets f (List.mem_cons_of_mem _ member)
        · rw [if_neg nothing] at bucket ⊢
          simp only [renderFamily, bucket, foldl_sampleLine]
          rw [ih _ _ restDistinct]
          · rw [List.flatMap_cons, unlines_append, ← headerLines_eq]
            simp only [String.append_assoc]
          · intro f member
            have different : f.name ≠ family.name := fun same =>
              fresh (same ▸ List.mem_map_of_mem member)
            rw [SortedMap.get?_erase, if_neg different]
            exact buckets f (List.mem_cons_of_mem _ member)
  exact loop Cadvisor.families (pushes.foldl push empty) buf familyNames_nodup fun _ _ => rfl

/-- Dropping the pushes of whole families drops their blocks and no other. -/
theorem blocks_filter (keep : String → Bool) (pushes : List Push) :
    blocks (pushes.filter fun p => keep p.family) =
      (blocks pushes).filter fun b => keep b.family.name := by
  have one : ∀ family : Family, blockOf (pushes.filter fun p => keep p.family) family =
      (blockOf pushes family).filter fun b => keep b.family.name := by
    intro family
    have bucket : (pushes.filter fun p => keep p.family).filter (fun p => p.family = family.name) =
        if keep family.name then pushes.filter fun p => p.family = family.name else [] := by
      rw [List.filter_filter]
      split_ifs with kept
      · refine List.filter_congr fun p _ => ?_
        by_cases mine : p.family = family.name <;> simp [mine, kept]
      · refine List.filter_eq_nil_iff.mpr fun p _ => ?_
        by_cases mine : p.family = family.name <;> simp [mine, kept]
    unfold blockOf
    rw [bucket]
    by_cases nothing : (pushes.filter fun p => p.family = family.name).map Push.series = []
    · cases keep family.name <;> simp only [nothing, Bool.false_eq_true, if_false, if_true,
        List.map_nil, Option.filter_none]
    · cases kept : keep family.name <;> simp only [nothing, Bool.false_eq_true, if_false, if_true,
        List.map_nil, Option.filter_some, kept]
  unfold blocks
  rw [List.filter_filterMap]
  exact List.filterMap_congr fun family _ => one family

/-! ## The samples of a block -/

theorem mem_blocks_iff (pushes : List Push) (b : Block) :
    b ∈ blocks pushes ↔ b.family ∈ Cadvisor.families ∧
      (pushes.filter fun p => p.family = b.family.name) ≠ [] ∧
      b.samples = written ((pushes.filter fun p => p.family = b.family.name).map Push.series) := by
  rw [blocks, List.mem_filterMap]
  constructor
  · intro found
    obtain ⟨family, inTable, isBlock⟩ := found
    unfold blockOf at isBlock
    dsimp only at isBlock
    split_ifs at isBlock with nothing
    rw [← Option.some.inj isBlock]
    exact ⟨inTable, fun none => nothing (by rw [none]; rfl), rfl⟩
  · intro parts
    obtain ⟨inTable, some', samplesAre⟩ := parts
    refine ⟨b.family, inTable, ?_⟩
    have nonempty : (pushes.filter fun p => p.family = b.family.name).map Push.series ≠ [] := by
      simpa using some'
    unfold blockOf
    dsimp only
    rw [if_neg nonempty, ← samplesAre]

theorem blocks_sublist (pushes : List Push) :
    ((blocks pushes).map Block.family).Sublist Cadvisor.families := by
  have keepsFamily : ∀ table : List Family,
      ((table.filterMap (blockOf pushes)).map Block.family).Sublist table := by
    intro table
    induction table with
    | nil => exact List.Sublist.refl []
    | cons family rest ih =>
        rw [List.filterMap_cons, blockOf]
        split_ifs
        · exact ih.cons family
        · exact ih.cons_cons family
  exact keepsFamily Cadvisor.families

theorem written_spec (series : List Series) :
    ((written series).Pairwise fun a b => a.key < b.key) ∧
      ∀ labels, (written series).filter (fun s => s.labels = labels) =
        (series.filter fun s => s.labels = labels).take 1 := by
  have sameKey : ∀ later first : Series,
      decide (later.labels = first.labels) = true ↔ later.key = first.key := fun later first => by
    rw [decide_eq_true_iff, key_eq_iff]
  obtain ⟨rising, runs⟩ := dedupBy_stableSort_of_test Series.key sameKey series
  refine ⟨rising, fun labels => runs _ (labels.map toLex) fun s => ?_⟩
  rw [decide_eq_true_iff]
  exact (key_eq_iff s ⟨labels, 0, none⟩).symm

theorem written_sorted (series : List Series) :
    (written series).Pairwise fun a b => a.key < b.key :=
  (written_spec series).1

theorem written_filter_labels (series : List Series) (labels : List (String × String)) :
    (written series).filter (fun s => s.labels = labels) =
      (series.filter fun s => s.labels = labels).take 1 :=
  (written_spec series).2 labels

theorem mem_written {series : List Series} {s : Series} (member : s ∈ written series) :
    s ∈ series := by
  have inRun : s ∈ (written series).filter fun x => x.labels = s.labels :=
    List.mem_filter.mpr ⟨member, by simp⟩
  rw [written_filter_labels] at inRun
  exact (List.mem_filter.mp (List.mem_of_mem_take inRun)).1

theorem written_ne_nil {series : List Series} (some' : series ≠ []) : written series ≠ [] := by
  obtain ⟨s, rest, rfl⟩ := List.exists_cons_of_ne_nil some'
  intro nothing
  have run := written_filter_labels (s :: rest) s.labels
  rw [nothing, List.filter_cons_of_pos (by simp)] at run
  exact absurd run (by simp)

end Output

end Cadvisor
