import Tollgate.Net.UciOps

/-!
# The two transports of the configuration

Operations that are rendered for the shell and operations that are sent to rpcd should leave the
same configuration. Setting, deleting and committing do. Appending to a list does not, for rpcd is
told to set the list; nor does adding a section under a name, for the name is not passed on.

`transports_agree` follows both transports along a list of operations. They agree after every one of
them if each meets `UciOp.Portable` where it is carried out, and for identifiers that are single
parts of a path only then.
-/

set_option autoImplicit false
set_option relaxedAutoImplicit false

namespace Tollgate

open Std

/-! ### Values given to one key -/

/-- The values given to a key, in order. -/
def valuesOf (values : List (String × OpValue)) (key : String) : List OpValue :=
  (values.filter fun entry ↦ entry.1 = key).map (·.2)

/-- A fold that touches one key at a time, seen at one key. -/
theorem getElem?_foldl {step : UciOptions → String → OpValue → UciOptions}
    (change : Option OpValue → OpValue → Option OpValue)
    (hstep : ∀ (options : UciOptions) (key : String) (value : OpValue) (other : String),
      (step options key value)[other]? =
        if key = other then change options[other]? value else options[other]?)
    (values : List (String × OpValue)) (options : UciOptions) (key : String) :
    (values.foldl (fun options entry ↦ step options entry.1 entry.2) options)[key]? =
      (valuesOf values key).foldl change options[key]? := by
  induction values generalizing options with
  | nil => rfl
  | cons entry rest ih =>
    rw [List.foldl_cons, ih, hstep]
    by_cases hkey : entry.1 = key
    · simp [valuesOf, hkey]
    · simp [valuesOf, hkey]

/-- The last value alone counts where each replaces the one before. -/
theorem foldl_replace {α β : Type} (replacement : α → β) (values : List α) (start : β) :
    values.foldl (fun _ value ↦ replacement value) start =
      (values.getLast?.map replacement).getD start := by
  induction values generalizing start with
  | nil => rfl
  | cons value rest ih =>
    rw [List.foldl_cons, ih]
    cases rest with
    | nil => rfl
    | cons next others => simp [List.getLast?_cons]

theorem getElem?_assign (options : UciOptions) (key : String) (value : OpValue) (other : String) :
    (options.assign key value)[other]? =
      if key = other then value.stored else options[other]? := by
  unfold UciOptions.assign
  rw [ExtTreeMap.getElem?_alter]
  by_cases hkey : key = other
  · simp [hkey]
  · simp [hkey]

theorem getElem?_append (options : UciOptions) (key item other : String) :
    (options.append key item)[other]? =
      if key = other then some (.list (OpValue.elements options[other]? ++ [item]))
      else options[other]? := by
  unfold UciOptions.append
  rw [ExtTreeMap.getElem?_alter]
  by_cases hkey : key = other
  · simp [hkey]
  · simp [hkey]

theorem getElem?_jsonValues (values : List (String × OpValue)) (key : String) :
    (jsonValues values)[key]? = (valuesOf values key).getLast? := by
  have hstep : ∀ (options : UciOptions) (key : String) (value : OpValue) (other : String),
      (options.insert key value)[other]? = if key = other then some value else options[other]? := by
    intro options key value other
    rw [ExtTreeMap.getElem?_insert]
    by_cases hkey : key = other
    · simp [hkey]
    · simp [hkey]
  rw [jsonValues, getElem?_foldl (fun _ value ↦ some value) hstep, foldl_replace]
  cases (valuesOf values key).getLast? with
  | none => simp
  | some value => rfl

theorem filter_key_of_mem {entries : List (String × OpValue)}
    (hdistinct : entries.Pairwise fun first second ↦ first.1 ≠ second.1) {key : String}
    {value : OpValue} (hmem : (key, value) ∈ entries) :
    (entries.filter fun entry ↦ entry.1 = key) = [(key, value)] := by
  induction entries with
  | nil => exact absurd hmem (by simp)
  | cons entry rest ih =>
    obtain ⟨hothers, hrest⟩ := List.pairwise_cons.mp hdistinct
    rcases List.mem_cons.mp hmem with rfl | hmem
    · have hnone : (rest.filter fun entry ↦ entry.1 = key) = [] := by
        rw [List.filter_eq_nil_iff]
        intro other hother
        simpa using (hothers other hother).symm
      simp [hnone]
    · have hkey : entry.1 ≠ key := hothers _ hmem
      simp [hkey, ih hrest hmem]

/-- In an object every key stands once. -/
theorem valuesOf_toList (object : UciOptions) (key : String) :
    valuesOf object.toList key = object[key]?.toList := by
  have hdistinct : object.toList.Pairwise fun first second ↦ first.1 ≠ second.1 := by
    refine ExtTreeMap.distinct_keys_toList.imp fun hcompare hequal ↦ hcompare ?_
    rw [hequal]
    exact ReflCmp.compare_self
  unfold valuesOf
  cases hvalue : object[key]? with
  | none =>
    have hnone : (object.toList.filter fun entry ↦ entry.1 = key) = [] := by
      rw [List.filter_eq_nil_iff]
      intro entry hentry hkey
      have hfound := ExtTreeMap.mem_toList_iff_getElem?_eq_some.mp hentry
      rw [decide_eq_true_eq] at hkey
      rw [hkey, hvalue] at hfound
      exact absurd hfound (by simp)
    rw [hnone]
    rfl
  | some value =>
    rw [filter_key_of_mem hdistinct (ExtTreeMap.mem_toList_iff_getElem?_eq_some.mpr hvalue)]
    rfl

/-- rpcd takes the values as if they were assigned one after the other. -/
theorem mergeValues_jsonValues (options : UciOptions) (values : List (String × OpValue)) :
    mergeValues options (jsonValues values) =
      values.foldl (fun options entry ↦ options.assign entry.1 entry.2) options := by
  apply ExtTreeMap.ext_getElem?
  intro key
  have hassigned := getElem?_foldl (fun _ value ↦ value.stored) getElem?_assign
  rw [mergeValues, hassigned, hassigned, valuesOf_toList, foldl_replace, foldl_replace,
    getElem?_jsonValues]
  cases (valuesOf values key).getLast? <;> rfl

/-! ### Values appended to what is there -/

/-- What the shell does with a value of a section that was just added: lists are appended to. -/
def UciOptions.extend (options : UciOptions) (key : String) : OpValue → UciOptions
  | .single value => options.assign key (.single value)
  | .list items => items.foldl (fun options item ↦ options.append key item) options

/-- The same at the key alone. -/
def extendValue (before : Option OpValue) : OpValue → Option OpValue
  | .single value => some (.single value)
  | .list [] => before
  | .list items => some (.list (OpValue.elements before ++ items))

theorem getElem?_foldl_append (items : List String) (options : UciOptions) (key other : String) :
    (items.foldl (fun options item ↦ options.append key item) options)[other]? =
      if key = other then extendValue options[other]? (.list items) else options[other]? := by
  induction items generalizing options with
  | nil => simp [extendValue]
  | cons item rest ih =>
    rw [List.foldl_cons, ih]
    by_cases hkey : key = other
    · rw [if_pos hkey, if_pos hkey, getElem?_append, if_pos hkey]
      cases rest with
      | nil => rfl
      | cons next others => simp [extendValue, OpValue.elements]
    · rw [if_neg hkey, if_neg hkey, getElem?_append, if_neg hkey]

theorem getElem?_extend (options : UciOptions) (key : String) (value : OpValue) (other : String) :
    (options.extend key value)[other]? =
      if key = other then extendValue options[other]? value else options[other]? := by
  cases value with
  | single text => exact getElem?_assign options key (.single text) other
  | list items => exact getElem?_foldl_append items options key other

/-- A list replaces what was there once that is deleted. -/
theorem foldl_append_erase (options : UciOptions) (key : String) (items : List String) :
    items.foldl (fun (options : UciOptions) item ↦ options.append key item) (options.erase key) =
      options.assign key (.list items) := by
  apply ExtTreeMap.ext_getElem?
  intro other
  rw [getElem?_foldl_append, getElem?_assign, ExtTreeMap.getElem?_erase]
  by_cases hkey : key = other
  · rw [if_pos hkey, if_pos hkey]
    cases items with
    | nil => simp [extendValue, OpValue.stored, hkey]
    | cons item rest => simp [extendValue, OpValue.stored, OpValue.elements, hkey]
  · simp [hkey]

/-- A list given last to a key is the first value it gets, apart from empty lists. -/
def Fresh (values : List OpValue) : Prop :=
  ∀ items, values.getLast? = some (.list items) → ∀ value ∈ values.dropLast, value = .list []

/-- Nothing is there as long as only empty lists were given. -/
theorem foldl_extendValue_eq_none_iff (values : List OpValue) :
    values.foldl extendValue none = none ↔ ∀ value ∈ values, value = .list [] := by
  induction values using List.reverseRecOn with
  | nil => simp
  | append_singleton values last ih =>
    rw [List.foldl_append, List.foldl_cons, List.foldl_nil]
    have hlast : extendValue (values.foldl extendValue none) last = none ↔
        values.foldl extendValue none = none ∧ last = .list [] := by
      cases last with
      | single text => simp [extendValue]
      | list items =>
        cases items with
        | nil => simp [extendValue]
        | cons item rest => simp [extendValue]
    rw [hlast, ih]
    simp [or_imp, forall_and]

/-- What is there is not empty. -/
theorem elements_foldl_extendValue {values : List OpValue} {value : OpValue}
    (hvalue : values.foldl extendValue none = some value) :
    OpValue.elements (some value) ≠ [] := by
  induction values using List.reverseRecOn generalizing value with
  | nil => exact absurd hvalue (by simp)
  | append_singleton values last ih =>
    rw [List.foldl_append, List.foldl_cons, List.foldl_nil] at hvalue
    cases last with
    | single text =>
      rw [← hvalue]
      simp [extendValue, OpValue.elements]
    | list items =>
      cases items with
      | nil => exact ih hvalue
      | cons item rest =>
        rw [← hvalue]
        simp [extendValue, OpValue.elements]

/-- Appending comes to the same as assigning exactly for fresh values. -/
theorem foldl_extendValue_eq_iff (values : List OpValue) :
    values.foldl extendValue none = values.foldl (fun _ value ↦ value.stored) none ↔
      Fresh values := by
  induction values using List.reverseRecOn with
  | nil => simp [Fresh]
  | append_singleton values last _ =>
    simp only [List.foldl_append, List.foldl_cons, List.foldl_nil]
    cases last with
    | single text => simp [extendValue, OpValue.stored, Fresh]
    | list items =>
      have hfresh : Fresh (values ++ [OpValue.list items]) ↔
          ∀ value ∈ values, value = .list [] := by
        simp [Fresh]
      rw [hfresh, ← foldl_extendValue_eq_none_iff]
      cases hbefore : values.foldl extendValue none with
      | none =>
        refine iff_of_true ?_ rfl
        cases items <;> rfl
      | some value =>
        refine iff_of_false ?_ (by simp)
        have helements := elements_foldl_extendValue hbefore
        cases items with
        | nil => simp [extendValue, OpValue.stored]
        | cons item rest => simpa [extendValue, OpValue.stored] using helements

/-- The same for all keys of a section. -/
theorem foldl_extend_eq_iff (values : List (String × OpValue)) :
    values.foldl (fun options entry ↦ options.extend entry.1 entry.2) (∅ : UciOptions) =
        values.foldl (fun options entry ↦ options.assign entry.1 entry.2) ∅ ↔
      ∀ key, Fresh (valuesOf values key) := by
  have hextend := getElem?_foldl extendValue getElem?_extend
  have hassign := getElem?_foldl (fun _ value ↦ value.stored) getElem?_assign
  have hnone : ∀ key : String, (∅ : UciOptions)[key]? = none := fun _ ↦ ExtTreeMap.getElem?_empty
  constructor
  · intro hequal key
    have hread := congrArg (·[key]?) hequal
    simp only [hextend, hassign, hnone] at hread
    exact (foldl_extendValue_eq_iff _).mp hread
  · intro hfresh
    apply ExtTreeMap.ext_getElem?
    intro key
    rw [hextend, hassign, hnone]
    exact (foldl_extendValue_eq_iff _).mpr (hfresh key)

/-! ### Rendered values -/

section Rendered

variable (fresh : List UciSection → String → String)

/-- Items appended one by one. -/
theorem foldl_addList {config reference key : String} (hconfig : IsPart config)
    (hreference : IsPart reference) (hkey : IsPart key) {items : List String}
    (hitems : ∀ item ∈ items, '\x00' ∉ item.toList) (store : UciStore) :
    (items.map fun item ↦ "uci add_list " ++ (config ++ "." ++ reference ++ "." ++ key) ++ "=" ++
        shQuote item).foldl (executeCommand fresh) store =
      store.update config reference fun options ↦
        items.foldl (fun options item ↦ options.append key item) options := by
  induction items generalizing store with
  | nil => exact UciStore.update_id.symm
  | cons item rest ih =>
    have hrest : ∀ other ∈ rest, '\x00' ∉ other.toList :=
      fun other hother ↦ hitems other (List.mem_cons_of_mem _ hother)
    rw [List.map_cons, List.foldl_cons, ih hrest,
      executeCommand_addList fresh store hconfig hreference hkey (hitems item List.mem_cons_self),
      UciStore.update_update]
    rfl

theorem executeCommand_set_option {config reference key : String} (hconfig : IsPart config)
    (hreference : IsPart reference) (hkey : IsPart key) {value : String}
    (hvalue : '\x00' ∉ value.toList) (store : UciStore) :
    executeCommand fresh store
        ("uci set " ++ (config ++ "." ++ reference ++ "." ++ key) ++ "=" ++ shQuote value) =
      store.update config reference (·.assign key (.single value)) := by
  obtain ⟨hpath, hparsed⟩ := hconfig.option_path hreference hkey
  exact executeCommand_set fresh store hpath hparsed hvalue

/-- The rendered value replaces what was there. -/
theorem foldl_renderSet {config reference key : String} (hconfig : IsPart config)
    (hreference : IsPart reference) (hkey : IsPart key) {value : OpValue}
    (hvalue : ∀ text ∈ OpValue.elements (some value), '\x00' ∉ text.toList) (store : UciStore) :
    (renderSet (config ++ "." ++ reference ++ "." ++ key) value).foldl (executeCommand fresh)
        store = store.update config reference (·.assign key value) := by
  cases value with
  | single text =>
    exact executeCommand_set_option fresh hconfig hreference hkey (hvalue text (by simp
      [OpValue.elements])) store
  | list items =>
    obtain ⟨hpath, hparsed⟩ := hconfig.option_path hreference hkey
    have hitems : ∀ item ∈ items, '\x00' ∉ item.toList := hvalue
    rw [renderSet, List.foldl_cons, executeCommand_delete_quiet fresh store hpath,
      executeCommand_delete fresh store hpath hparsed,
      foldl_addList fresh hconfig hreference hkey hitems]
    show ((store.deleteOption config reference key).getD store).update config reference _ = _
    rw [UciStore.deleteOption_getD, UciStore.update_update]
    apply UciStore.update_congr
    intro options _
    exact foldl_append_erase options key items

/-- Of a section that was just added, the rendered value goes behind what is there. -/
theorem foldl_renderAdded {config reference key : String} (hconfig : IsPart config)
    (hreference : IsPart reference) (hkey : IsPart key) {value : OpValue}
    (hvalue : ∀ text ∈ OpValue.elements (some value), '\x00' ∉ text.toList) (store : UciStore) :
    (renderAdded (config ++ "." ++ reference ++ "." ++ key) value).foldl (executeCommand fresh)
        store = store.update config reference (·.extend key value) := by
  cases value with
  | single text =>
    exact executeCommand_set_option fresh hconfig hreference hkey (hvalue text (by simp
      [OpValue.elements])) store
  | list items => exact foldl_addList fresh hconfig hreference hkey hvalue store

/-- Rendered values one after the other. -/
theorem foldl_values {config reference : String} {render : String × OpValue → List String}
    {step : UciOptions → String → OpValue → UciOptions} {values : List (String × OpValue)}
    (hrender : ∀ entry ∈ values, ∀ store : UciStore,
      (render entry).foldl (executeCommand fresh) store =
        store.update config reference fun options ↦ step options entry.1 entry.2)
    (store : UciStore) :
    (values.flatMap render).foldl (executeCommand fresh) store =
      store.update config reference fun options ↦
        values.foldl (fun options entry ↦ step options entry.1 entry.2) options := by
  induction values generalizing store with
  | nil => exact UciStore.update_id.symm
  | cons entry rest ih =>
    rw [List.flatMap_cons, List.foldl_append, hrender entry List.mem_cons_self,
      ih (fun other hother ↦ hrender other (List.mem_cons_of_mem _ hother)),
      UciStore.update_update]
    rfl

end Rendered

/-! ### Operations that can be carried over -/

namespace UciOp

/-- The identifiers of an operation. -/
def names : UciOp → List String
  | .set config reference values => config :: reference :: values.map (·.1)
  | .add config typeName name values =>
    config :: typeName :: ((if name = "" then [] else [name]) ++ values.map (·.1))
  | .delete config reference option => config :: reference :: option.toList
  | .addList config reference option _ => [config, reference, option]
  | .commit config => [config]
  | .service name _ => [name]
  | .shell _ | .comment _ => []

/-- The values of an operation. -/
def texts : UciOp → List String
  | .set _ _ values | .add _ _ _ values =>
    values.flatMap fun entry ↦ OpValue.elements (some entry.2)
  | .addList _ _ _ value => [value]
  | .delete _ _ _ | .commit _ | .service _ _ | .shell _ | .comment _ => []

/-- Any operation but a raw command, with identifiers that are accepted. -/
structure Valid (op : UciOp) : Prop where
  notShell : ∀ command, op ≠ .shell command
  names : ∀ name ∈ op.names, IsIdentifier name

/-- Identifiers are single parts of a path, the type of an anonymous section can be referred to, and
values can be passed to a program. -/
structure Plain (op : UciOp) : Prop where
  undotted : ∀ name ∈ op.names, '.' ∉ name.toList
  unbracketed : ∀ config typeName values, op = .add config typeName "" values →
    '[' ∉ typeName.toList
  nulFree : ∀ text ∈ op.texts, '\x00' ∉ text.toList

/-- Where an operation comes to the same on both transports: a value is appended to an option that
is not there, a section is added without a name, with lists given to fresh keys, and whatever names
a missing package changes nothing. -/
def Portable (store : UciStore) : UciOp → Prop
  | .addList config reference option _ =>
    ∀ options, store.options? config reference = some options →
      OpValue.elements options[option]? = []
  | .add config _ name values =>
    store.working[config]? ≠ none → name = "" ∧ ∀ key, Fresh (valuesOf values key)
  | .set _ _ _ | .delete _ _ _ | .commit _ | .shell _ | .service _ _ | .comment _ => True

end UciOp

/-! ### Sections that are added -/

theorem placesOfType_append (sections : List UciSection) (added : UciSection) :
    placesOfType (sections ++ [added]) added.type =
      placesOfType sections added.type ++ [sections.length] := by
  unfold placesOfType
  rw [List.length_append, List.length_singleton, List.range_succ, List.filter_append]
  congr 1
  · apply List.filter_congr
    intro place hplace
    rw [List.getElem?_append_left (List.mem_range.mp hplace)]
  · simp

/-- The last section of its type is the last one, if it is of that type. -/
theorem resolve_last (sections : List UciSection) {added : UciSection}
    (htype : '[' ∉ added.type.toList) :
    resolve (sections ++ [added]) ("@" ++ added.type ++ "[-1]") = some sections.length := by
  have hlist : ("@" ++ added.type ++ "[-1]").toList =
      '@' :: (added.type.toList ++ ['[', '-', '1', ']']) := by
    simp [String.toList_append]
  have hbefore : ∀ character ∈ added.type.toList, decide (character ≠ '[') = true := by
    intro character hmem
    exact decide_eq_true fun hequal ↦ htype (hequal ▸ hmem)
  have hdrop : (added.type.toList ++ ['[', '-', '1', ']']).dropWhile (· ≠ '[') =
      ['[', '-', '1', ']'] := by
    rw [List.dropWhile_append_of_pos hbefore]
    rfl
  have htake : (added.type.toList ++ ['[', '-', '1', ']']).takeWhile (· ≠ '[') =
      added.type.toList := by
    rw [List.takeWhile_append_of_pos hbefore]
    simp
  have hindex : parseIndex ['-', '1'] = some (-1) := by decide +kernel
  have hnth : nthOfType (sections ++ [added]) added.type (-1) = some sections.length := by
    unfold nthOfType
    rw [placesOfType_append]
    simp
  rw [resolve, hlist]
  simp only [hdrop, htake, String.ofList_toList]
  show (if [('-'), '1', ']'].getLast? = some ']' then (parseIndex ['-', '1']).bind _ else none) = _
  rw [if_pos (by decide), hindex]
  exact hnth

theorem isPart_lastReference {typeName : String} (htype : IsPart typeName) :
    IsPart ("@" ++ typeName ++ "[-1]") := by
  have hlist : ("@" ++ typeName ++ "[-1]").toList =
      '@' :: (typeName.toList ++ "[-1]".toList) := by
    simp [String.toList_append]
  have hfixed : ∀ character ∈ "[-1]".toList, isIdentifierChar character = true ∧
      character ≠ '.' := by
    simp [isIdentifierChar]
  constructor
  · rw [isIdentifier_iff]
    refine ⟨fun hempty ↦ ?_, ?_⟩
    · rw [hempty] at hlist
      simp at hlist
    · rw [hlist]
      intro character hmem
      rcases List.mem_cons.mp hmem with rfl | hmem
      · decide
      · rcases List.mem_append.mp hmem with hmem | hmem
        · exact htype.identifier.isPathText.valid character hmem
        · exact (hfixed character hmem).1
  · rw [hlist]
    intro hmem
    rcases List.mem_cons.mp hmem with hat | hmem
    · exact absurd hat (by decide)
    · rcases List.mem_append.mp hmem with hmem | hmem
      · exact htype.undotted hmem
      · exact (hfixed '.' hmem).2 rfl

/-- How many sections of a package are anonymous. -/
def UciStore.anonymous (store : UciStore) (config : String) : Option ℕ :=
  store.working[config]?.map fun sections ↦ (sections.map (·.anonymous)).count true

theorem anonymous_replace (store : UciStore) (config : String) (sections : List UciSection) :
    (store.replace config sections).anonymous config =
      some ((sections.map (·.anonymous)).count true) := by
  rw [UciStore.anonymous, UciStore.getElem?_replace]
  rfl

theorem map_anonymous_modify (sections : List UciSection) (place : ℕ)
    {change : UciSection → UciSection}
    (hchange : ∀ uciSection, (change uciSection).anonymous = uciSection.anonymous) :
    (sections.modify place change).map (·.anonymous) = sections.map (·.anonymous) := by
  apply List.ext_getElem?
  intro index
  rw [List.getElem?_map, List.getElem?_map, List.getElem?_modify]
  cases sections[index]? with
  | none => rfl
  | some uciSection =>
    by_cases hplace : place = index
    · simp [hplace, hchange]
    · simp [hplace]

theorem anonymous_update (store : UciStore) (config reference : String)
    (change : UciOptions → UciOptions) :
    (store.update config reference change).anonymous config = store.anonymous config := by
  unfold UciStore.update UciStore.modifyOptions UciStore.modifySection
  cases hsections : store.working[config]? with
  | none => rfl
  | some sections =>
    cases hplace : resolve sections reference with
    | none => simp [hplace]
    | some place =>
      simp only [Option.bind_some, hplace, Option.map_some, Option.getD_some, anonymous_replace]
      rw [map_anonymous_modify, UciStore.anonymous, hsections]
      · rfl
      · exact fun _ ↦ rfl

theorem anonymous_setSection (store : UciStore) (config reference type : String) :
    ((store.setSection config reference type).getD store).anonymous config =
      store.anonymous config := by
  unfold UciStore.setSection
  cases hsections : store.working[config]? with
  | none => rfl
  | some sections =>
    have hbefore : store.anonymous config = some ((sections.map (·.anonymous)).count true) := by
      rw [UciStore.anonymous, hsections]
      rfl
    rw [hbefore, Option.bind_some]
    split
    · next place _ =>
      rw [Option.getD_some, anonymous_replace, map_anonymous_modify]
      exact fun _ ↦ rfl
    · split
      · rw [Option.getD_some, anonymous_replace]
        simp
      · exact hbefore

theorem update_added (store : UciStore) (config : String) (sections : List UciSection)
    {added : UciSection} (htype : '[' ∉ added.type.toList) (change : UciOptions → UciOptions) :
    (store.replace config (sections ++ [added])).update config ("@" ++ added.type ++ "[-1]")
        change =
      store.replace config (sections ++ [{ added with options := change added.options }]) := by
  unfold UciStore.update UciStore.modifyOptions UciStore.modifySection
  rw [UciStore.getElem?_replace, Option.bind_some, resolve_last sections htype, Option.map_some,
    Option.getD_some, UciStore.replace_replace]
  congr 1
  rw [List.modify_eq_take_cons_drop (by simp)]
  simp

/-! ### One operation on both transports -/

section Operation

variable (fresh : List UciSection → String → String) (store : UciStore)

/-- The transports agree on an operation. -/
def UciOp.Agrees (op : UciOp) : Prop :=
  op.render.foldl (executeCommand fresh) store = (op.call fresh store).getD store

theorem UciOp.isPart {op : UciOp} (hvalid : op.Valid) (hplain : op.Plain) {name : String}
    (hname : name ∈ op.names) : IsPart name :=
  ⟨hvalid.names name hname, hplain.undotted name hname⟩

theorem agrees_set {config reference : String} {values : List (String × OpValue)}
    (hvalid : (UciOp.set config reference values).Valid)
    (hplain : (UciOp.set config reference values).Plain) :
    (UciOp.set config reference values).Agrees fresh store := by
  have hconfig : IsPart config := UciOp.isPart hvalid hplain (by simp [UciOp.names])
  have hreference : IsPart reference := UciOp.isPart hvalid hplain (by simp [UciOp.names])
  have hrender : ∀ entry ∈ values, ∀ store : UciStore,
      (renderSet (config ++ "." ++ reference ++ "." ++ entry.1) entry.2).foldl
          (executeCommand fresh) store =
        store.update config reference fun options ↦ options.assign entry.1 entry.2 := by
    intro entry hentry store
    have hkey : IsPart entry.1 := UciOp.isPart hvalid hplain (by
      simp only [UciOp.names, List.mem_cons, List.mem_map]
      exact .inr (.inr ⟨entry, hentry, rfl⟩))
    apply foldl_renderSet fresh hconfig hreference hkey
    intro text htext
    exact hplain.nulFree text (List.mem_flatMap.mpr ⟨entry, hentry, htext⟩)
  unfold UciOp.Agrees UciOp.render UciOp.call
  rw [foldl_values fresh hrender]
  apply UciStore.update_congr
  intro options _
  exact (mergeValues_jsonValues options values).symm

theorem foldl_render_addList {config reference option value : String} (hconfig : IsPart config)
    (hreference : IsPart reference) (hoption : IsPart option) (hvalue : '\x00' ∉ value.toList) :
    (UciOp.addList config reference option value).render.foldl (executeCommand fresh) store =
      store.update config reference (·.append option value) := by
  rw [← executeCommand_addList fresh store hconfig hreference hoption hvalue]
  simp [UciOp.render, String.append_assoc]

theorem agrees_addList_iff {config reference option value : String}
    (hvalid : (UciOp.addList config reference option value).Valid)
    (hplain : (UciOp.addList config reference option value).Plain) :
    (UciOp.addList config reference option value).Agrees fresh store ↔
      (UciOp.addList config reference option value).Portable store := by
  have hconfig : IsPart config := UciOp.isPart hvalid hplain (by simp [UciOp.names])
  have hreference : IsPart reference := UciOp.isPart hvalid hplain (by simp [UciOp.names])
  have hoption : IsPart option := UciOp.isPart hvalid hplain (by simp [UciOp.names])
  have hvalue : '\x00' ∉ value.toList := hplain.nulFree value (by simp [UciOp.texts])
  have hshell := foldl_render_addList fresh store hconfig hreference hoption hvalue
  have hcall : ((UciOp.addList config reference option value).call fresh store).getD store =
      store.update config reference
        (mergeValues · (jsonValues [(option, .list [value])])) := rfl
  rw [UciOp.Agrees, hshell, hcall, UciStore.update_eq_update_iff]
  refine forall_congr' fun options ↦ imp_congr_right fun _ ↦ ?_
  rw [mergeValues_jsonValues]
  show options.append option value = options.assign option (.list [value]) ↔ _
  constructor
  · intro hequal
    have hread := congrArg (·[option]?) hequal
    simpa [getElem?_append, getElem?_assign, OpValue.stored] using hread
  · intro hempty
    apply ExtTreeMap.ext_getElem?
    intro other
    rw [getElem?_append, getElem?_assign]
    by_cases hkey : option = other
    · subst hkey
      simp [hempty, OpValue.stored]
    · simp [hkey]

/-- What the shell makes of the values of a section that was added under a reference. -/
theorem foldl_added {config typeName name reference : String} {values : List (String × OpValue)}
    (hvalid : (UciOp.add config typeName name values).Valid)
    (hplain : (UciOp.add config typeName name values).Plain) (hreference : IsPart reference) :
    (values.flatMap fun (key, value) ↦
        renderAdded (config ++ "." ++ reference ++ "." ++ key) value).foldl (executeCommand fresh)
        store =
      store.update config reference fun options ↦
        values.foldl (fun options entry ↦ options.extend entry.1 entry.2) options := by
  have hconfig : IsPart config := UciOp.isPart hvalid hplain (by simp [UciOp.names])
  have hrender : ∀ entry ∈ values, ∀ store : UciStore,
      (renderAdded (config ++ "." ++ reference ++ "." ++ entry.1) entry.2).foldl
          (executeCommand fresh) store =
        store.update config reference fun options ↦ options.extend entry.1 entry.2 := by
    intro entry hentry store
    have hkey : IsPart entry.1 := UciOp.isPart hvalid hplain (by
      simp only [UciOp.names, List.mem_cons, List.mem_append, List.mem_map]
      exact .inr (.inr (.inr ⟨entry, hentry, rfl⟩)))
    apply foldl_renderAdded fresh hconfig hreference hkey
    intro text htext
    exact hplain.nulFree text (List.mem_flatMap.mpr ⟨entry, hentry, htext⟩)
  exact foldl_values fresh hrender store

/-- What the shell makes of a section with a name. -/
theorem foldl_render_add_named {config typeName name : String}
    {values : List (String × OpValue)} (hname : name ≠ "")
    (hvalid : (UciOp.add config typeName name values).Valid)
    (hplain : (UciOp.add config typeName name values).Plain) :
    (UciOp.add config typeName name values).render.foldl (executeCommand fresh) store =
      ((store.setSection config name typeName).getD store).update config name fun options ↦
        values.foldl (fun options entry ↦ options.extend entry.1 entry.2) options := by
  have hconfig : IsPart config := UciOp.isPart hvalid hplain (by simp [UciOp.names])
  have hreference : IsPart name := UciOp.isPart hvalid hplain (by simp [UciOp.names, hname])
  have hnul : '\x00' ∉ typeName.toList := nul_notMem_pathText
    (hvalid.names typeName (by simp [UciOp.names])).isPathText
  obtain ⟨hpath, hparsed⟩ := hconfig.section_path hreference
  have hfirst : executeCommand fresh store
      ("uci set " ++ config ++ "." ++ name ++ "=" ++ shQuote typeName) =
        (store.setSection config name typeName).getD store := by
    have hset := executeCommand_set fresh store hpath hparsed hnul
    simpa [String.append_assoc] using hset
  simp only [UciOp.render, hname, if_false, List.foldl_cons]
  rw [hfirst]
  exact foldl_added fresh _ hvalid hplain hreference

/-- A section with a name is not what rpcd adds. -/
theorem agrees_add_named_iff {config typeName name : String} {values : List (String × OpValue)}
    (hname : name ≠ "") (hvalid : (UciOp.add config typeName name values).Valid)
    (hplain : (UciOp.add config typeName name values).Plain) :
    (UciOp.add config typeName name values).Agrees fresh store ↔
      (UciOp.add config typeName name values).Portable store := by
  have hshell := foldl_render_add_named fresh store hname hvalid hplain
  unfold UciOp.Agrees UciOp.Portable
  rw [hshell]
  cases hsections : store.working[config]? with
  | none =>
    refine iff_of_true ?_ (fun hsome ↦ absurd hsections hsome)
    have hset : store.setSection config name typeName = none := by
      simp [UciStore.setSection, hsections]
    have hadd : (UciOp.add config typeName name values).call fresh store = none := by
      simp [UciOp.call, UciStore.addSection, hsections]
    rw [hset, hadd]
    exact UciStore.update_of_none (by simp [UciStore.options?, hsections]) _
  | some sections =>
    have hpresent : store.working[config]? ≠ none := by
      rw [hsections]
      exact Option.some_ne_none sections
    refine iff_of_false (fun hequal ↦ ?_) (fun hportable ↦ hname (hportable hpresent).1)
    have hcount := congrArg (·.anonymous config) hequal
    simp only [anonymous_update, anonymous_setSection] at hcount
    have hcall : (UciOp.add config typeName name values).call fresh store =
        some (store.replace config (sections ++
          [⟨fresh sections typeName, typeName, true, mergeValues ∅ (jsonValues values)⟩])) := by
      simp [UciOp.call, UciStore.addSection, hsections]
    rw [hcall, Option.getD_some, anonymous_replace, UciStore.anonymous, hsections] at hcount
    simp at hcount

/-- An anonymous section is the same on both sides if its lists are given to fresh keys. -/
theorem agrees_add_anonymous_iff {config typeName : String} {values : List (String × OpValue)}
    (hvalid : (UciOp.add config typeName "" values).Valid)
    (hplain : (UciOp.add config typeName "" values).Plain) :
    (UciOp.add config typeName "" values).Agrees fresh store ↔
      (UciOp.add config typeName "" values).Portable store := by
  have hconfig : IsPart config := UciOp.isPart hvalid hplain (by simp [UciOp.names])
  have htype : IsPart typeName := UciOp.isPart hvalid hplain (by simp [UciOp.names])
  have hbracket : '[' ∉ typeName.toList := hplain.unbracketed config typeName values rfl
  have hshell : (UciOp.add config typeName "" values).render.foldl (executeCommand fresh) store =
      ((store.addSection config fresh typeName ∅).getD store).update config
        ("@" ++ typeName ++ "[-1]") fun options ↦
          values.foldl (fun options entry ↦ options.extend entry.1 entry.2) options := by
    simp only [UciOp.render, if_true, List.foldl_cons]
    rw [executeCommand_add fresh store hconfig.identifier htype.identifier]
    exact foldl_added fresh _ hvalid hplain (isPart_lastReference htype)
  unfold UciOp.Agrees UciOp.Portable
  rw [hshell]
  cases hsections : store.working[config]? with
  | none =>
    refine iff_of_true ?_ (fun hsome ↦ absurd hsections hsome)
    have hadd : store.addSection config fresh typeName ∅ = none := by
      simp [UciStore.addSection, hsections]
    have hcall : (UciOp.add config typeName "" values).call fresh store = none := by
      simp [UciOp.call, UciStore.addSection, hsections]
    rw [hadd, hcall]
    exact UciStore.update_of_none (by simp [UciStore.options?, hsections]) _
  | some sections =>
    have hadd : store.addSection config fresh typeName ∅ = some (store.replace config
        (sections ++ [⟨fresh sections typeName, typeName, true, ∅⟩])) := by
      simp [UciStore.addSection, hsections]
    have hcall : (UciOp.add config typeName "" values).call fresh store =
        some (store.replace config (sections ++
          [⟨fresh sections typeName, typeName, true, mergeValues ∅ (jsonValues values)⟩])) := by
      simp [UciOp.call, UciStore.addSection, hsections]
    have hadded : ∀ change, (store.replace config (sections ++
        [⟨fresh sections typeName, typeName, true, ∅⟩])).update config
          ("@" ++ typeName ++ "[-1]") change = store.replace config (sections ++
            [⟨fresh sections typeName, typeName, true, change ∅⟩]) :=
      update_added store config sections hbracket
    have hpresent : store.working[config]? ≠ none := by
      rw [hsections]
      exact Option.some_ne_none sections
    rw [hadd, hcall, Option.getD_some, Option.getD_some, hadded, mergeValues_jsonValues]
    constructor
    · intro hequal _
      refine ⟨rfl, (foldl_extend_eq_iff values).mp ?_⟩
      have hread := congrArg (·.working[config]?) hequal
      simpa using hread
    · intro hportable
      rw [(foldl_extend_eq_iff values).mpr (hportable hpresent).2]

theorem foldl_render_delete {config reference : String} (hconfig : IsPart config)
    (hreference : IsPart reference) :
    (UciOp.delete config reference none).render.foldl (executeCommand fresh) store =
      (store.deleteSection config reference).getD store := by
  obtain ⟨hpath, hparsed⟩ := hconfig.section_path hreference
  have hdelete := executeCommand_delete fresh store hpath hparsed
  simpa [UciOp.render, String.append_assoc] using hdelete

theorem agrees_delete {config reference : String} {option : Option String}
    (hvalid : (UciOp.delete config reference option).Valid)
    (hplain : (UciOp.delete config reference option).Plain) :
    (UciOp.delete config reference option).Agrees fresh store := by
  have hconfig : IsPart config := UciOp.isPart hvalid hplain (by simp [UciOp.names])
  have hreference : IsPart reference := UciOp.isPart hvalid hplain (by simp [UciOp.names])
  cases option with
  | none => exact foldl_render_delete fresh store hconfig hreference
  | some key =>
    have hkey : IsPart key := UciOp.isPart hvalid hplain (by simp [UciOp.names])
    obtain ⟨hpath, hparsed⟩ := hconfig.option_path hreference hkey
    have hdelete := executeCommand_delete fresh store hpath hparsed
    simpa [UciOp.Agrees, UciOp.render, UciOp.call, String.append_assoc] using hdelete

/-- The transports agree on an operation exactly where it is portable. -/
theorem agrees_iff {op : UciOp} (hvalid : op.Valid) (hplain : op.Plain) :
    op.Agrees fresh store ↔ op.Portable store := by
  cases op with
  | set config reference values =>
    exact iff_of_true (agrees_set fresh store hvalid hplain) trivial
  | add config typeName name values =>
    by_cases hname : name = ""
    · subst hname
      exact agrees_add_anonymous_iff fresh store hvalid hplain
    · exact agrees_add_named_iff fresh store hname hvalid hplain
  | delete config reference option =>
    exact iff_of_true (agrees_delete fresh store hvalid hplain) trivial
  | addList config reference option value => exact agrees_addList_iff fresh store hvalid hplain
  | commit config =>
    have hconfig := hvalid.names config (by simp [UciOp.names])
    exact iff_of_true (executeCommand_commit fresh store hconfig) trivial
  | shell command => exact absurd rfl (hvalid.notShell command)
  | service name action =>
    have hname := hvalid.names name (by simp [UciOp.names])
    exact iff_of_true (executeCommand_service fresh store hname action) trivial
  | comment text => exact iff_of_true (executeCommand_comment fresh store text) trivial

end Operation

/-! ### Lists of operations -/

theorem executeShell_concat (fresh : List UciSection → String → String) (store : UciStore)
    (before : List UciOp) (op : UciOp) :
    executeShell fresh store (before ++ [op]) =
      op.render.foldl (executeCommand fresh) (executeShell fresh store before) := by
  simp [executeShell, renderShell]

theorem executeUbus_concat (fresh : List UciSection → String → String) (store : UciStore)
    (before : List UciOp) (op : UciOp) :
    executeUbus fresh store (before ++ [op]) =
      (op.call fresh (executeUbus fresh store before)).getD (executeUbus fresh store before) := by
  simp [executeUbus]

/-- The transports agree after every operation if each of them is plain and portable where it is
carried out; a list of plain operations leaves no other way to agree.
Assumes: no raw commands, and identifiers that are accepted. -/
theorem transports_agree (fresh : List UciSection → String → String) (store : UciStore)
    {ops : List UciOp} (hvalid : ∀ op ∈ ops, op.Valid) :
    ((∀ before op after, ops = before ++ op :: after →
        op.Plain ∧ op.Portable (executeShell fresh store before)) →
      ∀ before, before <+: ops →
        executeShell fresh store before = executeUbus fresh store before) ∧
    ((∀ op ∈ ops, op.Plain) →
      (∀ before, before <+: ops →
        executeShell fresh store before = executeUbus fresh store before) →
      ∀ before op after, ops = before ++ op :: after →
        op.Portable (executeShell fresh store before)) := by
  constructor
  · intro hcondition before hbefore
    induction before using List.reverseRecOn with
    | nil => rfl
    | append_singleton before op ih =>
      obtain ⟨after, hsplit⟩ := hbefore
      have hcut : ops = before ++ op :: after := by rw [← hsplit]; simp
      have hequal := ih ⟨op :: after, hcut.symm⟩
      obtain ⟨hplain, hportable⟩ := hcondition before op after hcut
      have hop := hvalid op (by rw [hcut]; simp)
      rw [executeShell_concat, executeUbus_concat, ← hequal]
      exact (agrees_iff fresh _ hop hplain).mpr hportable
  · intro hplain hagree before op after hcut
    have hop : op ∈ ops := by rw [hcut]; simp
    have hequal := hagree before ⟨op :: after, hcut.symm⟩
    have hnext := hagree (before ++ [op]) ⟨after, by rw [hcut]; simp⟩
    rw [executeShell_concat, executeUbus_concat, ← hequal] at hnext
    exact (agrees_iff fresh _ (hvalid op hop) (hplain op hop)).mp hnext

/-- A configuration with one firewall zone, and whatever options it has. -/
def guestZone (options : UciOptions) : UciStore :=
  ⟨(∅ : ExtTreeMap String (List UciSection)).insert "firewall" [⟨"guest", "zone", false, options⟩],
    ∅⟩

/-- How the system might name sections. -/
def freshName (sections : List UciSection) (_type : String) : String :=
  "cfg" ++ toString sections.length

theorem isPart_guest {name : String} (hname : name ∈ ["firewall", "guest", "network"]) :
    IsPart name := by
  simp only [List.mem_cons, List.not_mem_nil, or_false] at hname
  rcases hname with rfl | rfl | rfl
  all_goals exact ⟨by simp [isIdentifier_iff, isIdentifierChar], by simp⟩

theorem transports_agree_on_new_list :
    executeShell freshName (guestZone ∅)
        [.addList "firewall" "guest" "network" "guest", .commit "firewall"] =
      executeUbus freshName (guestZone ∅)
        [.addList "firewall" "guest" "network" "guest", .commit "firewall"] := by
  have hnames : ∀ op ∈ [UciOp.addList "firewall" "guest" "network" "guest", .commit "firewall"],
      ∀ name ∈ op.names, IsPart name := by
    intro op hop name hname
    apply isPart_guest
    simp only [List.mem_cons, List.not_mem_nil, or_false] at hop
    rcases hop with rfl | rfl
    · exact hname
    · simpa [UciOp.names] using Or.inl hname
  have hvalid : ∀ op ∈ [UciOp.addList "firewall" "guest" "network" "guest", .commit "firewall"],
      op.Valid := by
    intro op hop
    refine ⟨fun command hshell ↦ ?_, fun name hname ↦ (hnames op hop name hname).identifier⟩
    rw [hshell] at hop
    simp at hop
  have hplain : ∀ op ∈ [UciOp.addList "firewall" "guest" "network" "guest", .commit "firewall"],
      op.Plain := by
    intro op hop
    refine ⟨fun name hname ↦ (hnames op hop name hname).undotted, ?_, ?_⟩
    · intro config typeName values hadd
      rw [hadd] at hop
      simp at hop
    · simp only [List.mem_cons, List.not_mem_nil, or_false] at hop
      rcases hop with rfl | rfl <;> simp [UciOp.texts]
  refine (transports_agree freshName (guestZone ∅) hvalid).1 ?_ _ List.prefix_rfl
  intro before op after hcut
  refine ⟨hplain op (by rw [hcut]; simp), ?_⟩
  cases before with
  | nil =>
    obtain ⟨rfl, -⟩ := List.cons.inj hcut
    have hzone : (guestZone ∅).options? "firewall" "guest" = some ∅ := by decide +kernel
    intro options hoptions
    have hempty : ∅ = options := Option.some.inj (hzone.symm.trans hoptions)
    rw [← hempty]
    simp [OpValue.elements]
  | cons first rest =>
    obtain ⟨-, hrest⟩ := List.cons.inj hcut
    cases rest with
    | nil =>
      obtain ⟨rfl, -⟩ := List.cons.inj hrest
      trivial
    | cons second others => simp at hrest

/-- An operation that appends to a list, where there is one: the shell leaves two values, rpcd
one. -/
theorem transports_disagree_on_list :
    (UciOp.addList "firewall" "guest" "network" "guest").Valid ∧
      ((executeShell freshName (guestZone ((∅ : UciOptions).insert "network" (.list ["lan"])))
        [.addList "firewall" "guest" "network" "guest"]).options? "firewall" "guest").bind
          (·["network"]?) = some (.list ["lan", "guest"]) ∧
      ((executeUbus freshName (guestZone ((∅ : UciOptions).insert "network" (.list ["lan"])))
        [.addList "firewall" "guest" "network" "guest"]).options? "firewall" "guest").bind
          (·["network"]?) = some (.list ["guest"]) := by
  refine ⟨⟨fun _ ↦ by simp, fun name hname ↦ (isPart_guest hname).identifier⟩, ?_, ?_⟩
  · have hshell := executeShell_concat freshName
      (guestZone ((∅ : UciOptions).insert "network" (.list ["lan"]))) []
      (.addList "firewall" "guest" "network" "guest")
    rw [List.nil_append] at hshell
    rw [hshell, foldl_render_addList freshName _ (isPart_guest (by simp))
      (isPart_guest (by simp)) (isPart_guest (by simp)) (by simp)]
    decide +kernel
  · decide +kernel

end Tollgate
