import Cadvisor.Manager.Containers

/-!
# The whitelisted environment

The whitelist is walked entry by entry, each entry over the whole environment, and
every variable that fits overwrites what was there.
-/

set_option autoImplicit false

namespace Cadvisor

/-- `KEY=value`, cut at the first `=`. -/
def envEntries (env : List String) : List (String × String) :=
  env.filterMap fun var => Str.splitOnce var '='

def Whitelisted (whitelist : List String) (key : String) : Prop :=
  ∃ pre ∈ whitelist, pre ≠ "" ∧ Str.startsWith key pre = true

def IsLastOf (env : List String) (key value : String) : Prop :=
  ∃ before var after, env = before ++ var :: after ∧
    Str.splitOnce var '=' = some (key, value) ∧
    ∀ later ∈ after, ∀ value', Str.splitOnce later '=' ≠ some (key, value')

theorem whitelistedEnv_eq (env whitelist : List String) :
    whitelistedEnv env whitelist = SortedMap.ofList ((envEntries env).filter fun entry =>
      (whitelist.filter (· ≠ "")).any fun pre => Str.startsWith entry.1 pre) := by
  rw [whitelistedEnv, ← SortedMap.ofList_passes _ fun pre k => Str.startsWith k pre]
  refine congrArg SortedMap.ofList (List.flatMap_congr fun pre _ => ?_)
  rw [envEntries, List.filter_filterMap]
  refine List.filterMap_congr fun var _ => ?_
  cases Str.splitOnce var '=' with
  | none => rfl
  | some entry =>
      rw [Option.filter_some]

theorem whitelisted_iff {whitelist : List String} {key : String} :
    ((whitelist.filter (· ≠ "")).any fun pre => Str.startsWith key pre) = true ↔
      Whitelisted whitelist key := by
  simp [Whitelisted]

theorem lastValue_envEntries_eq_some_iff {env : List String} {key value : String} :
    SortedMap.lastValue key (envEntries env) = some value ↔ IsLastOf env key value := by
  rw [SortedMap.lastValue_eq_some_iff]
  constructor
  · rintro ⟨front, back, parts, last⟩
    obtain ⟨before, rest, rfl, frontIs, restIs⟩ := List.filterMap_eq_append_iff.mp parts
    obtain ⟨skipped, var, after, rfl, skip, split, backIs⟩ := List.filterMap_eq_cons_iff.mp restIs
    refine ⟨before ++ skipped, var, after, by simp, split, fun later member value' found => ?_⟩
    exact last value' (backIs ▸ List.mem_filterMap.mpr ⟨later, member, found⟩)
  · rintro ⟨before, var, after, rfl, split, last⟩
    refine ⟨envEntries before, envEntries after, by simp [envEntries, split], ?_⟩
    intro value' member
    obtain ⟨later, inAfter, found⟩ := List.mem_filterMap.mp member
    exact last later inAfter value' found

theorem whitelistedEnv_get?_iff (env whitelist : List String) (key value : String) :
    (whitelistedEnv env whitelist).get? key = some value ↔
      Whitelisted whitelist key ∧ IsLastOf env key value := by
  rw [whitelistedEnv_eq, SortedMap.get?_ofList, SortedMap.lastValue_filter key (envEntries env)
    fun k => (whitelist.filter (· ≠ "")).any fun pre => Str.startsWith k pre,
    Option.ite_none_right_eq_some, whitelisted_iff, lastValue_envEntries_eq_some_iff]

/-- The environment decides the values, and of the whitelist only which non-empty entries
it has. -/
theorem whitelistedEnv_spec (env whitelist : List String) :
    (∀ key value, (whitelistedEnv env whitelist).get? key = some value ↔
      Whitelisted whitelist key ∧ IsLastOf env key value) ∧
    ∀ whitelist' : List String, (∀ pre, pre ≠ "" → (pre ∈ whitelist' ↔ pre ∈ whitelist)) →
      whitelistedEnv env whitelist' = whitelistedEnv env whitelist := by
  refine ⟨whitelistedEnv_get?_iff env whitelist, fun whitelist' same => ?_⟩
  have admits (key : String) : Whitelisted whitelist' key ↔ Whitelisted whitelist key :=
    exists_congr fun pre => by
      constructor
      · rintro ⟨member, nonempty, fits⟩
        exact ⟨(same pre nonempty).mp member, nonempty, fits⟩
      · rintro ⟨member, nonempty, fits⟩
        exact ⟨(same pre nonempty).mpr member, nonempty, fits⟩
  refine SortedMap.ext_get? fun key => Option.ext fun value => ?_
  rw [whitelistedEnv_get?_iff, whitelistedEnv_get?_iff, admits]

theorem whitelistedEnv_spec_overlapping :
    (∀ pre, pre ≠ "" → (pre ∈ ["A", "", "APP_", "A"] ↔ pre ∈ ["APP_", "A"])) ∧
    whitelistedEnv ["APP_ID=7", "TZ=UTC", "APP_ID=8", "NOEQ"] ["A", "", "APP_", "A"] =
      whitelistedEnv ["APP_ID=7", "TZ=UTC", "APP_ID=8", "NOEQ"] ["APP_", "A"] := by
  have same : ∀ pre, pre ≠ "" → (pre ∈ ["A", "", "APP_", "A"] ↔ pre ∈ ["APP_", "A"]) := by
    intro pre nonempty
    simp only [List.mem_cons, List.not_mem_nil, or_false, nonempty, false_or]
    tauto
  exact ⟨same, (whitelistedEnv_spec _ ["APP_", "A"]).2 _ same⟩

end Cadvisor
