import DevForge.MaskedView
import DevForge.SortedMap
import Mathlib.Data.String.Basic

/-!
# Importing an environment file

The variables of a file are compared with those of the project as they are before the import, and
what differs is written one after another. A key that the file gives two values is compared with
neither.
-/

set_option autoImplicit false

namespace DevForge.EnvImport
open Dotenv

/-! ## The variables of projects -/

structure EnvStore where
  projects : String → SortedMap String EnvVar
  keyed : ∀ project key var, (projects project).get key = some var → var.key = key ∧ validKey key = true

def EnvStore.get (s : EnvStore) (project key : String) : Option EnvVar := (s.projects project).get key

def EnvStore.list (s : EnvStore) (project : String) : List EnvVar := (s.projects project).entries.map Prod.snd

def EnvStore.upsert (s : EnvStore) (project : String) (var : EnvVar) : Except String EnvStore :=
  let key := trim var.key
  let clean : EnvVar := { var with key := key }
  if hvalid : validKey key = true then
    .ok {
      projects := Function.update s.projects project ((s.projects project).alter key (fun _ => clean))
      keyed := by
        intro p k v hv
        by_cases hp : p = project
        · subst hp
          rw [Function.update_self, SortedMap.get_alter] at hv
          split at hv
          · next hk =>
            cases hv
            exact ⟨hk.symm,hk ▸ hvalid⟩
          · exact s.keyed p k v hv
        · rw [Function.update_of_ne hp] at hv
          exact s.keyed p k v hv }
  else .error "clé env invalide (A-Z, 0-9, _)"

/-- One write after another, up to the first that fails. -/
def writeAll (project : String) : List EnvVar → EnvStore → Except String Unit × EnvStore
  | [], s => (.ok (),s)
  | var::vars, s =>
    match s.upsert project var with
    | .ok s' => writeAll project vars s'
    | .error e => (.error e,s)

/-- What is answered, and the store that is left. -/
def importDotenv (s : EnvStore) (project content : String) (overwrite : Bool) : Except String EnvMergeStats × EnvStore :=
  match parseDotenv content with
  | .error e => (.error e,s)
  | .ok parsed =>
    let r := envVarsNeedingWrite (s.list project) parsed overwrite
    let written := writeAll project r.1 s
    (written.1.map (fun _ => r.2),written.2)

/-! ## What is written -/

/-- The variable is written, given the value that its key has. -/
def needs (overwrite : Bool) (old : Option String) (var : EnvVar) : Bool :=
  !isMaskedPlaceholder var.value &&
    match old with
    | none => true
    | some prev => prev ≠ var.value && overwrite

theorem foldl_merge (existing incoming : List EnvVar) (overwrite : Bool) (acc : List EnvVar × EnvMergeStats) :
    (incoming.foldl (mergeVar existing overwrite) acc).1 =
      acc.1++incoming.filter (fun v => needs overwrite (lookup existing v.key) v) := by
  induction incoming generalizing acc with
  | nil => simp
  | cons v incoming ih =>
    rw [List.foldl_cons, ih]
    have hmerge : (mergeVar existing overwrite acc v).1 =
        acc.1++[v].filter (fun v => needs overwrite (lookup existing v.key) v) := by
      unfold mergeVar
      by_cases hmask : isMaskedPlaceholder v.value = true
      · simp [needs, hmask]
      · cases hold : lookup existing v.key with
        | none => simp [needs, hmask, hold]
        | some prev =>
          by_cases hsame : prev = v.value
          · simp [needs, hmask, hold, hsame]
          · cases overwrite <;> simp [needs, hmask, hold, hsame]
    rw [hmerge, List.append_assoc, ← List.filter_append, List.singleton_append]

theorem lookup_list (s : EnvStore) (project key : String) :
    lookup (s.list project) key = (s.get project key).map EnvVar.value := by
  have hkeys : (s.list project).map EnvVar.key = (s.projects project).entries.map Prod.fst := by
    rw [EnvStore.list, List.map_map]
    apply List.map_congr_left
    rintro ⟨k,v⟩ hkv
    exact (s.keyed project k v (((s.projects project).mem_entries_iff k v).mp hkv)).1
  have hnodup : ((s.list project).map EnvVar.key).Nodup := hkeys ▸ (s.projects project).keys_nodup
  cases hget : s.get project key with
  | some v =>
    have hmem : v ∈ s.list project :=
      List.mem_map_of_mem (f := Prod.snd) (((s.projects project).mem_entries_iff key v).mpr hget)
    have hlookup := DotenvRoundTrip.lookup_of_mem hnodup hmem
    rw [(s.keyed project key v hget).1] at hlookup
    exact hlookup
  | none =>
    have hnone : (s.list project).reverse.find? (fun v => v.key = key) = none := by
      rw [List.find?_eq_none]
      intro v hv hkey
      have hmem : v.key ∈ (s.list project).map EnvVar.key := List.mem_map_of_mem (List.mem_reverse.mp hv)
      rw [of_decide_eq_true hkey, hkeys] at hmem
      obtain ⟨⟨k,w⟩,hkw,rfl⟩ := List.mem_map.mp hmem
      have hsome := ((s.projects project).mem_entries_iff k w).mp hkw
      exact absurd (hsome.symm.trans hget) (by simp)
    simp only [lookup, hnone, Option.map_none]

/-- The last of the variables with the key. -/
def lastWith (vars : List EnvVar) (key : String) : Option EnvVar := vars.reverse.find? (fun v => v.key = key)

theorem lastWith_spec {vars : List EnvVar} {key : String} {v : EnvVar} (h : lastWith vars key = some v) :
    v ∈ vars ∧ v.key = key := by
  unfold lastWith at h
  exact ⟨List.mem_reverse.mp (List.mem_of_find?_eq_some h),by simpa using List.find?_some h⟩

theorem lastWith_none_iff (vars : List EnvVar) (key : String) : lastWith vars key = none ↔ ∀ v ∈ vars, v.key ≠ key := by
  simp [lastWith, List.find?_eq_none]

theorem upsert_ok (s : EnvStore) (project : String) {var : EnvVar} (h : validKey var.key = true) :
    ∃ s', s.upsert project var = .ok s' ∧
      ∀ p k, s'.get p k = if p = project ∧ k = var.key then some var else s.get p k := by
  have htrim := MaskedView.trim_validKey h
  unfold EnvStore.upsert
  dsimp only
  rw [dif_pos (htrim.symm ▸ h)]
  refine ⟨_,rfl,?_⟩
  intro p k
  by_cases hp : p = project
  · subst hp
    simp only [EnvStore.get, Function.update_self, SortedMap.get_alter, htrim, true_and]
  · simp only [EnvStore.get, Function.update_of_ne hp, hp, false_and, if_false]

theorem writeAll_get (project : String) (vars : List EnvVar) (hvalid : ∀ v ∈ vars, validKey v.key = true) (s : EnvStore) :
    (writeAll project vars s).1 = .ok () ∧ ∀ p k, (writeAll project vars s).2.get p k =
      if p = project then (lastWith vars k).or (s.get p k) else s.get p k := by
  induction vars generalizing s with
  | nil =>
    refine ⟨rfl,fun p k => ?_⟩
    have hnone : lastWith [] k = none := rfl
    rw [writeAll, hnone, Option.none_or, ite_self]
  | cons v vars ih =>
    obtain ⟨s',hs',hget⟩ := upsert_ok s project (hvalid v List.mem_cons_self)
    obtain ⟨hok,hrest⟩ := ih (fun w hw => hvalid w (List.mem_cons_of_mem v hw)) s'
    rw [writeAll, hs']
    refine ⟨hok,fun p k => ?_⟩
    rw [hrest, hget]
    have hlast : lastWith (v::vars) k = (lastWith vars k).or (if k = v.key then some v else none) := by
      rw [lastWith, List.reverse_cons, List.find?_append, ← lastWith]
      by_cases hk : k = v.key
      · simp [hk]
      · simp [hk, Ne.symm hk]
    by_cases hp : p = project
    · simp only [hp, true_and, if_true, hlast]
      by_cases hk : k = v.key
      · simp [hk]
      · simp [hk]
    · simp [hp]

theorem parseLine_valid {i : ℕ} {raw : List Char} {v : EnvVar} (h : parseLine i raw = .ok (some v)) :
    validKey v.key = true := by
  unfold parseLine at h
  dsimp only at h
  split at h
  · cases h
  · split at h
    · cases h
    · next key value _ =>
      split at h
      · cases h
      · next hkey =>
        cases h
        rw [Bool.or_eq_true, not_or, Bool.not_eq_true, Bool.not_eq_true, Bool.not_eq_false'] at hkey
        simp [validKey, hkey.1, hkey.2]

theorem parseLines_valid {i : ℕ} {ls : List (List Char)} {vars : List EnvVar} (h : parseLines i ls = .ok vars) :
    ∀ v ∈ vars, validKey v.key = true := by
  induction ls generalizing i vars with
  | nil =>
    cases h
    simp
  | cons l ls ih =>
    rw [parseLines] at h
    cases hline : parseLine i l with
    | error e =>
      rw [hline] at h
      cases h
    | ok var =>
      cases hrest : parseLines (i+1) ls with
      | error e =>
        rw [hline, hrest] at h
        cases h
      | ok rest =>
        rw [hline, hrest] at h
        cases h
        intro v hv
        obtain hv | hv := List.mem_append.mp hv
        · obtain rfl := Option.mem_toList.mp hv
          exact parseLine_valid hline
        · exact ih hrest v hv

/-- The variables of a file that an import writes. -/
def toWrite (s : EnvStore) (project : String) (overwrite : Bool) (vars : List EnvVar) : List EnvVar :=
  vars.filter (fun v => needs overwrite ((s.get project v.key).map EnvVar.value) v)

theorem import_eq {s : EnvStore} {project content : String} {vars : List EnvVar} (overwrite : Bool)
    (h : parseDotenv content = .ok vars) :
    (importDotenv s project content overwrite).2 = (writeAll project (toWrite s project overwrite vars) s).2 := by
  have hwrite : (envVarsNeedingWrite (s.list project) vars overwrite).1 = toWrite s project overwrite vars := by
    rw [envVarsNeedingWrite, foldl_merge, List.nil_append]
    apply List.filter_congr
    intro v _
    rw [lookup_list]
  rw [importDotenv, h]
  simp only [hwrite]

theorem import_get {s : EnvStore} {project content : String} {vars : List EnvVar} (overwrite : Bool)
    (h : parseDotenv content = .ok vars) (p k : String) :
    (importDotenv s project content overwrite).2.get p k =
      if p = project then (lastWith (toWrite s project overwrite vars) k).or (s.get p k) else s.get p k := by
  rw [import_eq overwrite h]
  apply (writeAll_get project _ _ s).2
  intro v hv
  exact parseLines_valid h v (List.mem_of_mem_filter hv)

theorem import_error {s : EnvStore} {project content e : String} (overwrite : Bool) (h : parseDotenv content = .error e) :
    (importDotenv s project content overwrite).2 = s := by
  rw [importDotenv, h]

/-! ## The last value of a key -/

/-- Of a text imported with overwriting: the last value of each key that is no mask, other keys as
they were, and nothing left to a second import; without overwriting: values as they were. -/
structure ImportsLast (s : EnvStore) (project content : String) : Prop where
  last : ∀ vars, parseDotenv content = .ok vars → ∀ k v, lastWith vars k = some v →
    isMaskedPlaceholder v.value = false →
      ((importDotenv s project content true).2.get project k).map EnvVar.value = some v.value
  absent : ∀ vars, parseDotenv content = .ok vars → ∀ p k, (p ≠ project ∨ ∀ v ∈ vars, v.key ≠ k) →
    (importDotenv s project content true).2.get p k = s.get p k
  again : (importDotenv (importDotenv s project content true).2 project content true).2 =
    (importDotenv s project content true).2
  kept : ∀ p k v, s.get p k = some v →
    ((importDotenv s project content false).2.get p k).map EnvVar.value = some v.value

/-- No key of the text is given two values that are no masks. -/
def OneValueEach (content : String) : Prop := ∀ vars, parseDotenv content = .ok vars →
  ∀ v ∈ vars, ∀ w ∈ vars, v.key = w.key → isMaskedPlaceholder v.value = false → isMaskedPlaceholder w.value = false →
    v.value = w.value

theorem needs_iff (old : Option String) (v : EnvVar) :
    needs true old v = true ↔ isMaskedPlaceholder v.value = false ∧ old ≠ some v.value := by
  cases old <;> simp [needs]

theorem not_needs_kept (prev : String) (v : EnvVar) : needs false (some prev) v = false := by simp [needs]

/-- Each value of the text is that of its key, where keys have one value. -/
theorem imported_value {s : EnvStore} {project content : String} {vars : List EnvVar}
    (h : parseDotenv content = .ok vars) (hone : OneValueEach content) {v : EnvVar} (hv : v ∈ vars)
    (hmask : isMaskedPlaceholder v.value = false) :
    ((importDotenv s project content true).2.get project v.key).map EnvVar.value = some v.value := by
  rw [import_get true h, if_pos rfl]
  cases hlast : lastWith (toWrite s project true vars) v.key with
  | some w =>
    obtain ⟨hmem,hkey⟩ := lastWith_spec hlast
    obtain ⟨hw,hneeds⟩ := List.mem_filter.mp hmem
    rw [Option.some_or, Option.map_some]
    exact congrArg some (hone vars h w hw v hv hkey ((needs_iff _ _).mp hneeds).1 hmask)
  | none =>
    have hnot : v ∉ toWrite s project true vars := fun hmem => (lastWith_none_iff _ _).mp hlast v hmem rfl
    rw [toWrite, List.mem_filter, needs_iff, not_and, not_and, not_not] at hnot
    rw [Option.none_or]
    exact hnot hv hmask

theorem imports_last_iff (s : EnvStore) (project content : String) :
    ImportsLast s project content ↔ OneValueEach content := by
  constructor
  · intro himports vars hparse v hv w hw hkey hmask hmask'
    by_contra hne
    have hagain := himports.again
    have hfirst : ∀ k, (importDotenv s project content true).2.get project k = _ :=
      fun k => import_get true hparse project k
    have hsecond : ∀ k, (importDotenv (importDotenv s project content true).2 project content true).2.get project k = _ :=
      fun k => import_get true hparse project k
    rw [hagain] at hsecond
    generalize (importDotenv s project content true).2 = s' at hfirst hsecond
    -- after the first import the key has a value, and one of the two is another
    obtain ⟨x,hx⟩ : ∃ x, s'.get project v.key = some x := by
      rw [hfirst, if_pos rfl]
      cases hlast : lastWith (toWrite s project true vars) v.key with
      | some x => exact ⟨x,rfl⟩
      | none =>
        have hnot : v ∉ toWrite s project true vars := fun hmem => (lastWith_none_iff _ _).mp hlast v hmem rfl
        rw [toWrite, List.mem_filter, needs_iff, not_and, not_and, not_not] at hnot
        obtain ⟨x,hx,-⟩ := Option.map_eq_some_iff.mp (hnot hv hmask)
        exact ⟨x,by rw [Option.none_or]; exact hx⟩
    obtain ⟨u,hu,hukey,humask,hux⟩ : ∃ u ∈ vars, u.key = v.key ∧ isMaskedPlaceholder u.value = false ∧
        u.value ≠ x.value := by
      by_cases hvx : v.value = x.value
      · exact ⟨w,hw,hkey.symm,hmask',fun hwx => hne (hvx.trans hwx.symm)⟩
      · exact ⟨v,hv,rfl,hmask,hvx⟩
    have hwritten : u ∈ toWrite s' project true vars := by
      rw [toWrite, List.mem_filter, needs_iff, hukey, hx]
      exact ⟨hu,humask,fun heq => hux (Option.some.inj heq).symm⟩
    cases hlast : lastWith (toWrite s' project true vars) v.key with
    | none => exact (lastWith_none_iff _ _).mp hlast u hwritten hukey
    | some y =>
      obtain ⟨hmem,hykey⟩ := lastWith_spec hlast
      have hneeds := ((needs_iff _ _).mp (List.mem_filter.mp hmem).2).2
      have hy := hsecond v.key
      rw [if_pos rfl, hlast, Option.some_or, hx] at hy
      rw [hykey, hx, Option.some.inj hy] at hneeds
      exact hneeds rfl
  · intro hone
    cases hparse : parseDotenv content with
    | error e =>
      refine ⟨?_,?_,by rw [import_error true hparse, import_error true hparse],?_⟩
      · intro vars h
        rw [hparse] at h
        cases h
      · intro vars h
        rw [hparse] at h
        cases h
      · intro p k v hv
        rw [import_error false hparse, hv]
        rfl
    | ok vars =>
      refine ⟨?_,?_,?_,?_⟩
      · intro vars h k v hlast hmask
        obtain ⟨hv,rfl⟩ := lastWith_spec hlast
        exact imported_value h hone hv hmask
      · intro vars h p k habsent
        rw [import_get true h]
        by_cases hp : p = project
        · have hnone : lastWith (toWrite s project true vars) k = none := by
            rw [lastWith_none_iff]
            exact fun v hv => habsent.resolve_left (fun hne => hne hp) v (List.mem_of_mem_filter hv)
          rw [if_pos hp, hnone, Option.none_or]
        · rw [if_neg hp]
      · have hnothing : toWrite (importDotenv s project content true).2 project true vars = [] := by
          rw [toWrite, List.filter_eq_nil_iff]
          intro v hv
          rw [needs_iff]
          exact fun hneeds => hneeds.2 (imported_value hparse hone hv hneeds.1)
        rw [import_eq (s := (importDotenv s project content true).2) true hparse, hnothing]
        rfl
      · intro p k v hv
        rw [import_get false hparse]
        by_cases hp : p = project
        · subst hp
          have hnone : lastWith (toWrite s p false vars) k = none := by
            rw [lastWith_none_iff]
            intro w hw hkey
            have hneeds := (List.mem_filter.mp hw).2
            rw [hkey, hv, Option.map_some, not_needs_kept] at hneeds
            cases hneeds
          rw [if_pos rfl, hnone, Option.none_or, hv, Option.map_some]
        · rw [if_neg hp, hv, Option.map_some]

/-- A project with one variable. -/
def stored (var : EnvVar) (h : validKey var.key = true) : EnvStore where
  projects _ := SortedMap.empty.alter var.key (fun _ => var)
  keyed := by
    intro project key v hv
    rw [SortedMap.get_alter] at hv
    split at hv
    · next hkey =>
      cases hv
      exact ⟨hkey.symm,hkey ▸ h⟩
    · cases hv

def port : EnvStore := stored ⟨"PORT","1",true,false⟩ (by decide)

/-- The value that is stored already is not written again behind another. -/
theorem stored_value_overtaken : ¬ImportsLast port "p" "PORT=2\nPORT=1" := by
  intro h
  have hlast := h.last [⟨"PORT","2",true,false⟩,⟨"PORT","1",true,false⟩] (by decide +kernel) "PORT"
    ⟨"PORT","1",true,false⟩ (by decide) (by decide +kernel)
  exact absurd hlast (by decide +kernel)

end DevForge.EnvImport
