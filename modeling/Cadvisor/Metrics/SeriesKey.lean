import Cadvisor.Metrics.Expo
import Mathlib.Data.List.Nodup

/-!
# Series and their keys

A series is a metric name and a set of label pairs.  The reader tells series apart by
a text: the name, and each pair in its order behind a NUL.
-/

set_option autoImplicit false

namespace Cadvisor

namespace Expo

def seriesKey (s : Sample) : String :=
  s.labels.foldl (fun key label => key ++ "\x00" ++ label.1 ++ "=" ++ label.2) s.name

/-- The same name and the same set of label pairs, in whatever order. -/
def SameSeries (s t : Sample) : Prop := s.name = t.name ∧ ∀ l, l ∈ s.labels ↔ l ∈ t.labels

/-- The same series, with the pairs listed in another way. -/
def Relisted (s t : Sample) : Prop := SameSeries s t ∧ s.labels ≠ t.labels

/-- Other label pairs that make the same text. -/
def Imitates (s t : Sample) : Prop := seriesKey s = seriesKey t ∧ s.labels ≠ t.labels

structure NamesOk (s : Sample) : Prop where
  name : isName s.name.toList = true
  labels : ∀ l ∈ s.labels, isName l.1.toList = true

/-! ## The reader checks names -/

theorem readLabels_names {r : List Char} {labels : List (String × String)} {i : Nat}
    {out : List (String × String) × Nat} (names : ∀ l ∈ labels, isName l.1.toList = true)
    (read : readLabels r labels i = .ok out) : ∀ l ∈ out.1, isName l.1.toList = true := by
  have extended : ∀ (labels : List (String × String)) (name v : List Char),
      (∀ l ∈ labels, isName l.1.toList = true) → ¬ ¬ isName name = true →
      ∀ l ∈ labels ++ [(String.ofList name, String.ofList v)], isName l.1.toList = true := by
    intro labels name v names nameOk l member
    rcases List.mem_append.mp member with old | added
    · exact names l old
    · rw [List.mem_singleton.mp added, String.toList_ofList]
      exact not_not.mp nameOk
  fun_induction readLabels r labels i with
  | case1 =>
      cases read
      exact names
  | case8 labels i _ _ _ _ _ name _ _ nameOk _ v _ _ _ _ ih =>
      exact ih (extended labels name v names nameOk) read
  | case9 labels i _ _ _ _ _ name _ _ nameOk _ v _ _ _ _ _ ih =>
      exact ih (extended labels name v names nameOk) read
  | case2 | case3 | case4 | case5 | case6 | case7 | case10 => cases read

theorem readRest_ok {parseF64 : String → Option Float} {name : String}
    {labels : List (String × String)} {rest : List Char} {s : Sample}
    (read : readRest parseF64 name labels rest = .ok s) : s.name = name ∧ s.labels = labels := by
  unfold readRest at read
  split at read
  · split at read
    · cases read
    · split at read
      · cases read
      · split at read
        · cases read
          exact ⟨rfl, rfl⟩
        · split at read
          · cases read
          · split_ifs at read
            cases read
            exact ⟨rfl, rfl⟩
  · cases read

theorem sample_names {parseF64 : String → Option Float} {line : String} {s : Sample}
    (read : sample parseF64 line = .ok s) : NamesOk s := by
  unfold sample at read
  split at read
  · cases read
  · split at read
    · rename_i name _ _ _
      split_ifs at read with nameIs
      have nameOk : isName (String.ofList name).toList = true := by
        rw [String.toList_ofList]
        exact nameIs
      split at read
      · split at read
        · cases read
        · rename_i labels _ labelsRead
          split at read
          · cases read
          · obtain ⟨isName, areLabels⟩ := readRest_ok read
            exact ⟨isName ▸ nameOk, areLabels ▸ readLabels_names (by simp) labelsRead⟩
      · obtain ⟨isName, areLabels⟩ := readRest_ok read
        exact ⟨isName ▸ nameOk, by simp [areLabels]⟩
    · cases read

/-! ## What the key tells -/

def pairText (label : String × String) : List Char := label.1.toList ++ '=' :: label.2.toList

/-- What stands behind the name and its NUL, if one more NUL ends the key. -/
def keyTail (s : Sample) : List Char := (s.labels.map pairText).flatMap fun part => part ++ ['\x00']

theorem toList_seriesKey (s : Sample) :
    (seriesKey s).toList = s.name.toList ++ s.labels.flatMap fun l => '\x00' :: pairText l := by
  have fold : ∀ (labels : List (String × String)) (key : String),
      (labels.foldl (fun key label => key ++ "\x00" ++ label.1 ++ "=" ++ label.2) key).toList =
        key.toList ++ labels.flatMap fun l => '\x00' :: pairText l := by
    intro labels
    induction labels with
    | nil => simp
    | cons label rest ih =>
        intro key
        have nul : "\x00".toList = ['\x00'] := rfl
        have equals : "=".toList = ['='] := rfl
        rw [List.foldl_cons, ih, List.flatMap_cons]
        simp [nul, equals, pairText]
  exact fold s.labels s.name

theorem seriesKey_terminated (s : Sample) :
    (seriesKey s).toList ++ ['\x00'] = s.name.toList ++ '\x00' :: keyTail s := by
  rw [toList_seriesKey, List.append_assoc, keyTail]
  congr 1
  induction s.labels with
  | nil => rfl
  | cons label rest ih =>
      rw [List.flatMap_cons, List.append_assoc, ih]
      simp

theorem nul_notMem {name : String} (nameOk : isName name.toList = true) :
    '\x00' ∉ name.toList :=
  fun member => ne_of_notNamePart nameOk (by decide) _ member rfl

theorem seriesKey_parts {s t : Sample} (sOk : NamesOk s) (tOk : NamesOk t)
    (same : seriesKey s = seriesKey t) : s.name = t.name ∧ keyTail s = keyTail t := by
  have cut : ∀ u : Sample, NamesOk u →
      Str.splitOnce (String.ofList ((seriesKey u).toList ++ ['\x00'])) '\x00' =
        some (u.name, String.ofList (keyTail u)) := by
    intro u ok
    rw [Str.splitOnce_eq_some_iff, String.toList_ofList, String.toList_ofList]
    exact ⟨seriesKey_terminated u, nul_notMem ok.name⟩
  have cuts := cut s sOk
  rw [same, cut t tOk, Option.some.injEq, Prod.mk.injEq, String.ofList_inj] at cuts
  exact ⟨cuts.1.symm, cuts.2.symm⟩

theorem splitOnce_pairText {l : String × String} (nameOk : isName l.1.toList = true) :
    Str.splitOnce (String.ofList (pairText l)) '=' = some l := by
  rw [Str.splitOnce_eq_some_iff, String.toList_ofList]
  exact ⟨rfl, fun inside => ne_of_notNamePart nameOk (by decide) _ inside rfl⟩

/-- Without a NUL in the values, samples with the same key list the same pairs. -/
theorem seriesKey_labels {s t : Sample} (sOk : NamesOk s) (tOk : NamesOk t)
    (sPlain : ∀ l ∈ s.labels, '\x00' ∉ l.2.toList) (tPlain : ∀ l ∈ t.labels, '\x00' ∉ l.2.toList)
    (same : seriesKey s = seriesKey t) : s.labels = t.labels := by
  have plain : ∀ u : Sample, NamesOk u → (∀ l ∈ u.labels, '\x00' ∉ l.2.toList) →
      ∀ part ∈ u.labels.map pairText, '\x00' ∉ part := by
    intro u ok valuesPlain part member
    obtain ⟨l, inLabels, rfl⟩ := List.mem_map.mp member
    simp [pairText, nul_notMem (ok.labels l inLabels), valuesPlain l inLabels]
  have decoded : ∀ u : Sample, NamesOk u →
      (u.labels.map pairText).map (fun part => Str.splitOnce (String.ofList part) '=') =
        u.labels.map some := by
    intro u ok
    rw [List.map_map]
    exact List.map_congr_left fun l member => splitOnce_pairText (ok.labels l member)
  have parts := congrArg (fun text => text.splitOn '\x00') (seriesKey_parts sOk tOk same).2
  rw [keyTail, keyTail, Str.splitOn_terminated (plain s sOk sPlain),
    Str.splitOn_terminated (plain t tOk tPlain)] at parts
  have labels := congrArg (List.map fun part => Str.splitOnce (String.ofList part) '=')
    (List.append_cancel_right parts)
  rw [decoded s sOk, decoded t tOk] at labels
  exact List.map_injective_iff.mpr (Option.some_injective _) labels

theorem Imitates.nul {s t : Sample} (sOk : NamesOk s) (tOk : NamesOk t) (imitates : Imitates s t) :
    ∃ l ∈ s.labels ++ t.labels, '\x00' ∈ l.2.toList := by
  by_contra none
  have plain : ∀ l ∈ s.labels ++ t.labels, '\x00' ∉ l.2.toList := by
    intro l member nul
    exact none ⟨l, member, nul⟩
  refine imitates.2 (seriesKey_labels sOk tOk (fun l member => ?_) (fun l member => ?_) imitates.1)
  · exact plain l (List.mem_append_left _ member)
  · exact plain l (List.mem_append_right _ member)

theorem seriesKey_congr {s t : Sample} (name : s.name = t.name) (labels : s.labels = t.labels) :
    seriesKey s = seriesKey t := by
  rw [seriesKey, seriesKey, name, labels]

theorem relisted_of_ne {s t : Sample} (differ : seriesKey s ≠ seriesKey t)
    (same : SameSeries s t) : Relisted s t :=
  ⟨same, fun labels => differ (seriesKey_congr same.1 labels)⟩

/-! ## Samples with keys of their own -/

theorem pairwise_sameSeries_iff {samples : List Sample}
    (distinct : (samples.map seriesKey).Nodup) :
    samples.Pairwise (fun s t => ¬ SameSeries s t) ↔
      samples.Pairwise fun s t => ¬ Relisted s t := by
  constructor
  · exact List.Pairwise.imp fun other relisted => other relisted.1
  · intro unlisted
    refine ((List.pairwise_map.mp distinct).and unlisted).imp ?_
    rintro s t ⟨differ, notRelisted⟩ same
    exact notRelisted (relisted_of_ne differ same)

/-- Behind samples with keys of their own comes one with the key of one of these: two of
them are of one series, unless that key is imitated and no series is listed twice. -/
theorem pairwise_repeat_iff {front : List Sample} {s : Sample}
    (frontOk : ∀ t ∈ front, NamesOk t) (sOk : NamesOk s)
    (distinct : (front.map seriesKey).Nodup) (again : seriesKey s ∈ front.map seriesKey) :
    ¬ (front ++ [s]).Pairwise (fun s t => ¬ SameSeries s t) ↔
      ∀ t ∈ front, Imitates t s → ¬ (front ++ [s]).Pairwise fun s t => ¬ Relisted s t := by
  constructor
  · intro repeats t member imitates unlisted
    obtain ⟨frontUnlisted, _, behind⟩ := List.pairwise_append.mp unlisted
    refine repeats (List.pairwise_append.mpr
      ⟨(pairwise_sameSeries_iff distinct).mpr frontUnlisted, List.pairwise_singleton _ _, ?_⟩)
    intro a inFront b isLast same
    have notRelisted := behind a inFront b isLast
    rw [List.mem_singleton.mp isLast] at same notRelisted
    have labels : a.labels = s.labels := by
      by_contra differ
      exact notRelisted ⟨same, differ⟩
    have keys : seriesKey a = seriesKey t :=
      (seriesKey_congr same.1 labels).trans imitates.1.symm
    have isT : a = t := List.inj_on_of_nodup_map distinct inFront member keys
    exact imitates.2 (isT ▸ labels)
  · intro holds
    obtain ⟨t, member, keys⟩ := List.mem_map.mp again
    by_cases labels : t.labels = s.labels
    · have same : SameSeries t s :=
        ⟨(seriesKey_parts (frontOk t member) sOk keys).1, fun l => by rw [labels]⟩
      intro others
      exact (List.pairwise_append.mp others).2.2 t member s (List.mem_singleton_self s) same
    · intro others
      refine holds t member ⟨keys, labels⟩ (others.imp ?_)
      exact fun other relisted => other relisted.1

end Expo

end Cadvisor
