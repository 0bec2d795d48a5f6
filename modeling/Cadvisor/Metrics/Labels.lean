import Cadvisor.Lib.SortedMap
import Cadvisor.Lib.SortedSeq
import Cadvisor.Metrics.Encode
import Cadvisor.Model.Container
import Mathlib.Data.List.Sort

/-!
# Container labels

Runtime labels and environment keys are arbitrary strings.  They are sanitised
into label names, every container gets the names of all of them, and a family
adds its own names before the list is sorted.
-/

set_option autoImplicit false

namespace Cadvisor

open SortedSeq

structure MetricsOpts where
  storeContainerLabels : Bool := true
  whitelistedContainerLabels : List String := []
  disabledGroups : SortedSet String := SortedMap.empty

def sanitizeLabelName (name : String) : String :=
  String.ofList (name.toList.map fun c => if isNameChar c then c else '_')

structure ContainerLabels where
  base : List (String × String)

namespace ContainerLabels

/-- A container's own labels, before the union over the containers. -/
def ownFrom (name : String) (spec : ContainerSpec) (reference : ContainerReference)
    (opts : MetricsOpts) : SortedMap String String :=
  let own := SortedMap.empty.insert "id" name
  let own := match reference.aliases.head? with
    | some first => own.insert "name" first
    | none => own
  let own := if spec.image = "" then own else own.insert "image" spec.image
  let own := spec.labels.toList.foldl (fun own entry =>
    if opts.storeContainerLabels ∨ entry.1 ∈ opts.whitelistedContainerLabels then
      own.insert ("container_label_" ++ sanitizeLabelName entry.1) entry.2
    else own) own
  if opts.storeContainerLabels then
    spec.envs.toList.foldl (fun own entry =>
      own.insert ("container_env_" ++ sanitizeLabelName entry.1) entry.2) own
  else own

def unioned (own : SortedMap String String) (union : SortedSet String) : ContainerLabels :=
  ⟨union.keys.map fun k => (k, (own.get? k).getD "")⟩

/-- `with`. -/
def withExtra (labels : ContainerLabels) (extra : List (String × String)) :
    List (String × String) :=
  stableSort Prod.fst (labels.base ++ extra)

end ContainerLabels

/-! ## Label names -/

/-- `[a-zA-Z_][a-zA-Z0-9_]*`. -/
def LabelName (name : String) : Prop :=
  PlainName name ∧ ∃ first rest, name.toList = first :: rest ∧ first.isDigit = false

def spellsLabelName : List Char → Bool
  | [] => false
  | first :: rest => !first.isDigit && (first :: rest).all isNameChar

theorem labelName_ofList {l : List Char} (spells : spellsLabelName l = true) :
    LabelName (String.ofList l) := by
  cases l with
  | nil => cases spells
  | cons first rest =>
      rw [spellsLabelName, Bool.and_eq_true, Bool.not_eq_true'] at spells
      exact ⟨plainName_ofList spells.2, first, rest, String.toList_ofList, spells.1⟩

theorem sanitizeLabelName_plain (name : String) : PlainName (sanitizeLabelName name) := by
  refine plainName_ofList (List.all_eq_true.mpr fun c member => ?_)
  obtain ⟨raw, _, rfl⟩ := List.mem_map.mp member
  split_ifs with legal
  · exact legal
  · decide

theorem LabelName.append {front back : String} (name : LabelName front)
    (plain : PlainName back) : LabelName (front ++ back) := by
  obtain ⟨frontPlain, first, rest, spelled, start⟩ := name
  refine ⟨?_, first, rest ++ back.toList, ?_, start⟩
  · intro c member
    rw [String.toList_append, List.mem_append] at member
    exact member.elim (frontPlain c) (plain c)
  · rw [String.toList_append, spelled, List.cons_append]

/-- The keys a container's own labels can have. -/
inductive OwnKey : String → Prop where
  | id : OwnKey "id"
  | name : OwnKey "name"
  | image : OwnKey "image"
  | label (raw : String) : OwnKey ("container_label_" ++ sanitizeLabelName raw)
  | env (raw : String) : OwnKey ("container_env_" ++ sanitizeLabelName raw)

theorem OwnKey.labelName {k : String} (own : OwnKey k) : LabelName k := by
  cases own with
  | id => exact labelName_ofList (by decide)
  | name => exact labelName_ofList (by decide)
  | image => exact labelName_ofList (by decide)
  | label raw =>
      exact (labelName_ofList (by decide)).append (sanitizeLabelName_plain raw)
  | env raw =>
      exact (labelName_ofList (by decide)).append (sanitizeLabelName_plain raw)

/-- A legal name that is no container's key. -/
def FamilyLabel (name : String) : Prop := LabelName name ∧ ∀ k, OwnKey k → k ≠ name

/-- Whether `l` spells a label name that is none of the three fixed keys and does not
start like the others. -/
def spellsFamilyLabel (l : List Char) : Bool :=
  spellsLabelName l &&
    l ∉ [['i', 'd'], ['n', 'a', 'm', 'e'], ['i', 'm', 'a', 'g', 'e']] &&
    l.take 9 != ['c', 'o', 'n', 't', 'a', 'i', 'n', 'e', 'r']

theorem familyLabel_ofList {l : List Char} (spells : spellsFamilyLabel l = true) :
    FamilyLabel (String.ofList l) := by
  simp only [spellsFamilyLabel, Bool.and_eq_true, decide_eq_true_eq, bne_iff_ne] at spells
  obtain ⟨⟨legal, notFixed⟩, notPrefixed⟩ := spells
  refine ⟨labelName_ofList legal, fun k own same => ?_⟩
  have spelled : l = k.toList := by rw [same, String.toList_ofList]
  cases own with
  | id | name | image => exact notFixed (by simp [spelled])
  | label raw | env raw =>
      rw [spelled, String.toList_append] at notPrefixed
      exact notPrefixed rfl

namespace ContainerLabels

theorem ownFrom_induction {P : SortedMap String String → Prop} (name : String)
    (spec : ContainerSpec) (reference : ContainerReference) (opts : MetricsOpts)
    (start : P (SortedMap.empty.insert "id" name))
    (insert : ∀ own k v, P own → OwnKey k → k ≠ "id" → P (own.insert k v)) :
    P (ownFrom name spec reference opts) := by
  have notId : ∀ {first : Char} {rest : List Char}, first ≠ 'i' → ∀ tail,
      String.ofList (first :: rest) ++ tail ≠ "id" := by
    intro first rest different tail same
    have spelled := congrArg String.toList same
    rw [String.toList_append, String.toList_ofList] at spelled
    exact different (List.cons.inj spelled).1
  have named : P (match reference.aliases.head? with
      | some first => (SortedMap.empty.insert "id" name).insert "name" first
      | none => SortedMap.empty.insert "id" name) := by
    cases reference.aliases.head? with
    | some first => exact insert _ _ _ start OwnKey.name (by decide)
    | none => exact start
  unfold ownFrom
  dsimp only
  generalize (match reference.aliases.head? with
      | some first => (SortedMap.empty.insert "id" name).insert "name" first
      | none => SortedMap.empty.insert "id" name) = own at named ⊢
  have withImage : P (if spec.image = "" then own else own.insert "image" spec.image) := by
    split_ifs
    · exact named
    · exact insert _ _ _ named OwnKey.image (by decide)
  generalize (if spec.image = "" then own else own.insert "image" spec.image) = own
    at withImage ⊢
  have labelled : P (spec.labels.toList.foldl (fun own entry =>
      if opts.storeContainerLabels ∨ entry.1 ∈ opts.whitelistedContainerLabels then
        own.insert ("container_label_" ++ sanitizeLabelName entry.1) entry.2
      else own) own) := by
    refine List.foldlRecOn (motive := P) _ _ withImage fun m holds entry _ => ?_
    split_ifs
    · exact insert _ _ _ holds (OwnKey.label _) (notId (by decide) _)
    · exact holds
  split_ifs
  · exact List.foldlRecOn (motive := P) _ _ labelled fun m holds entry _ =>
      insert _ _ _ holds (OwnKey.env _) (notId (by decide) _)
  · exact labelled

theorem ownKey_of_mem (name : String) (spec : ContainerSpec) (reference : ContainerReference)
    (opts : MetricsOpts) : ∀ k ∈ (ownFrom name spec reference opts).keys, OwnKey k := by
  refine ownFrom_induction (P := fun own => ∀ k ∈ own.keys, OwnKey k) name spec reference opts
    ?_ ?_
  · intro k member
    have isId : k = "id" := by simpa using member
    exact isId ▸ OwnKey.id
  · intro own k v keys new _ x member
    rcases (SortedMap.mem_keys_insert own k v x).mp member with isNew | isOld
    · exact isNew ▸ new
    · exact keys x isOld

theorem ownFrom_id (name : String) (spec : ContainerSpec) (reference : ContainerReference)
    (opts : MetricsOpts) : (ownFrom name spec reference opts).get? "id" = some name := by
  refine ownFrom_induction (P := fun own => own.get? "id" = some name) name spec reference opts
    ?_ ?_
  · rw [SortedMap.get?_insert, if_pos rfl]
  · intro own k v isName _ notId
    rw [SortedMap.get?_insert, if_neg (Ne.symm notId)]
    exact isName

/-! ## The list a sample gets -/

def names (labels : ContainerLabels) : List String := labels.base.map Prod.fst

@[simp] theorem names_unioned (own : SortedMap String String) (union : SortedSet String) :
    (unioned own union).names = union.keys := by
  simp [names, unioned, Function.comp_def]

theorem mem_withExtra (labels : ContainerLabels) (extra : List (String × String))
    (label : String × String) :
    label ∈ labels.withExtra extra ↔ label ∈ labels.base ∨ label ∈ extra := by
  rw [withExtra, mem_stableSort, List.mem_append]

theorem withExtra_names (labels : ContainerLabels) (extra : List (String × String)) :
    (labels.withExtra extra).map Prod.fst =
      stableSort id (labels.names ++ extra.map Prod.fst) := by
  rw [withExtra, stableSort_map_key, List.map_append, names]

end ContainerLabels

end Cadvisor
