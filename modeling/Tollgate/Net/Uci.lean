import Tollgate.Library.Shell

/-!
# The configuration of the router

OpenWrt keeps its configuration in packages of typed sections with options, reached through the
`uci` program or through the `uci` object of rpcd. Changes collect in a working copy until they are
committed. A section is referred to by its name, or by `@type[index]` among the sections of a type,
counted from the end if the index is negative. Sections added without a name get one from the
system; `fresh` is how it chooses, from the sections that are there and the type.

`set` replaces an option, `add_list` appends to it, and a list without values is no option at all.
A command that names what is not there fails and changes nothing.
-/

set_option autoImplicit false
set_option relaxedAutoImplicit false

namespace Tollgate

open Std

/-! ### Values and sections -/

/-- A single value, or the values of a list option. -/
inductive OpValue
  | single (value : String)
  | list (items : List String)
  deriving DecidableEq, Repr

/-- What is stored for a value. -/
def OpValue.stored : OpValue → Option OpValue
  | .list [] => none
  | value => some value

/-- The values of an option, in order. -/
def OpValue.elements : Option OpValue → List String
  | none => []
  | some (.single value) => [value]
  | some (.list items) => items

/-- The options of a section. -/
abbrev UciOptions := ExtTreeMap String OpValue

/-- A section of a package. -/
structure UciSection where
  name : String
  type : String
  anonymous : Bool
  options : UciOptions
  deriving DecidableEq

/-- The packages, with what is committed of each. -/
structure UciStore where
  working : ExtTreeMap String (List UciSection)
  committed : ExtTreeMap String (List UciSection)
  deriving DecidableEq

/-- An option takes a value. -/
def UciOptions.assign (options : UciOptions) (key : String) (value : OpValue) : UciOptions :=
  options.alter key fun _ ↦ value.stored

/-- A value is appended to an option; a single value becomes the first of a list. -/
def UciOptions.append (options : UciOptions) (key : String) (item : String) : UciOptions :=
  options.alter key fun before ↦ some (.list (OpValue.elements before ++ [item]))

/-! ### References -/

/-- A number in decimal digits. -/
def parseNumber (digits : List Char) : Option ℕ :=
  if digits ≠ [] ∧ digits.all Char.isDigit = true then
    some (digits.foldl (fun number digit ↦ 10 * number + (digit.toNat - '0'.toNat)) 0)
  else none

/-- A number with its sign. -/
def parseIndex : List Char → Option ℤ
  | '-' :: digits => (parseNumber digits).map fun number ↦ -(number : ℤ)
  | digits => (parseNumber digits).map fun number ↦ (number : ℤ)

/-- The places of the sections of a type; without a type, of all. -/
def placesOfType (sections : List UciSection) (type : String) : List ℕ :=
  (List.range sections.length).filter fun place ↦
    sections[place]?.any fun uciSection ↦ type = "" || uciSection.type = type

/-- The place of the section with an index among those of its type. -/
def nthOfType (sections : List UciSection) (type : String) (index : ℤ) : Option ℕ :=
  let places := placesOfType sections type
  if 0 ≤ index then places[index.toNat]?
  else if 0 ≤ places.length + index then places[(places.length + index).toNat]?
  else none

/-- The place of the section a reference names. -/
def resolve (sections : List UciSection) (reference : String) : Option ℕ :=
  match reference.toList with
  | '@' :: rest =>
    match rest.dropWhile (· ≠ '[') with
    | [] => none
    | _ :: tail =>
      if tail.getLast? = some ']' then
        (parseIndex tail.dropLast).bind
          (nthOfType sections (String.ofList (rest.takeWhile (· ≠ '['))))
      else none
  | _ => sections.findIdx? fun uciSection ↦ uciSection.name = reference

/-- A name a section can be given. -/
def isUciName (name : String) : Bool :=
  name ≠ "" && name.toList.all fun character ↦ character.isAlphanum || character = '_'

/-! ### Commands -/

namespace UciStore

variable (store : UciStore) (config reference key : String)

/-- Another content of a package. -/
def replace (sections : List UciSection) : UciStore :=
  { store with working := store.working.insert config sections }

/-- A section is changed in place. -/
def modifySection (change : UciSection → UciSection) : Option UciStore :=
  store.working[config]?.bind fun sections ↦
    (resolve sections reference).map fun place ↦
      store.replace config (sections.modify place change)

/-- The options of a section are changed. -/
def modifyOptions (change : UciOptions → UciOptions) : Option UciStore :=
  store.modifySection config reference fun uciSection ↦
    { uciSection with options := change uciSection.options }

/-- The options of a section. -/
def options? : Option UciOptions :=
  store.working[config]?.bind fun sections ↦
    (resolve sections reference).bind fun place ↦ sections[place]?.map (·.options)

/-- `uci delete` of an option, which must be there. -/
def deleteOption : Option UciStore :=
  if (store.options? config reference).any (·.contains key) then
    store.modifyOptions config reference (·.erase key)
  else none

/-- `uci delete` of a section. -/
def deleteSection : Option UciStore :=
  store.working[config]?.bind fun sections ↦
    (resolve sections reference).map fun place ↦ store.replace config (sections.eraseIdx place)

/-- `uci set` of a section: its type, or a section of that name and type if there is none. -/
def setSection (type : String) : Option UciStore :=
  store.working[config]?.bind fun sections ↦
    match resolve sections reference with
    | some place =>
      some (store.replace config (sections.modify place fun uciSection ↦
        { uciSection with type := type }))
    | none =>
      if isUciName reference then
        some (store.replace config (sections ++ [⟨reference, type, false, ∅⟩]))
      else none

/-- A section without a name of its own, at the end of a package. -/
def addSection (fresh : List UciSection → String → String) (type : String)
    (options : UciOptions) : Option UciStore :=
  store.working[config]?.map fun sections ↦
    store.replace config (sections ++ [⟨fresh sections type, type, true, options⟩])

/-- `uci commit`. -/
def commit : Option UciStore :=
  store.working[config]?.map fun sections ↦
    { store with committed := store.committed.insert config sections }

end UciStore

/-! ### How changes of options compose -/

/-- Indices look at types only. -/
theorem nthOfType_congr {first second : List UciSection}
    (htypes : first.map (·.type) = second.map (·.type)) :
    nthOfType first = nthOfType second := by
  have hlength : first.length = second.length := by
    have hmapped := congrArg List.length htypes
    rwa [List.length_map, List.length_map] at hmapped
  have hplaces : ∀ type : String, placesOfType first type = placesOfType second type := by
    intro type
    unfold placesOfType
    rw [hlength]
    apply List.filter_congr
    intro place _
    have hany : ∀ found : Option UciSection,
        (found.any fun uciSection ↦ type = "" || uciSection.type = type) =
          ((found.map (·.type)).any fun sectionType ↦ type = "" || sectionType = type) := by
      intro found
      cases found <;> rfl
    rw [hany, hany, ← List.getElem?_map, ← List.getElem?_map, htypes]
  funext type index
  unfold nthOfType
  rw [hplaces]

/-- References look at names and types only. -/
theorem resolve_congr {first second : List UciSection}
    (hlabels : (first.map fun uciSection ↦ (uciSection.name, uciSection.type)) =
      second.map fun uciSection ↦ (uciSection.name, uciSection.type)) (reference : String) :
    resolve first reference = resolve second reference := by
  have hfind : ∀ sections : List UciSection,
      sections.findIdx? (fun uciSection ↦ decide (uciSection.name = reference)) =
        (sections.map fun uciSection ↦ (uciSection.name, uciSection.type)).findIdx?
          (fun label ↦ decide (label.1 = reference)) := by
    intro sections
    rw [List.findIdx?_map]
    rfl
  have htypes : first.map (·.type) = second.map (·.type) := by
    have hmapped := congrArg (List.map Prod.snd) hlabels
    simpa [Function.comp_def] using hmapped
  unfold resolve
  simp only [hfind, hlabels, nthOfType_congr htypes]

/-- So a change of options leaves references alone. -/
theorem resolve_modify_options (sections : List UciSection) (place : ℕ)
    (change : UciOptions → UciOptions) (reference : String) :
    resolve (sections.modify place fun uciSection ↦
      { uciSection with options := change uciSection.options }) reference =
        resolve sections reference := by
  apply resolve_congr
  apply List.ext_getElem?
  intro index
  rw [List.getElem?_map, List.getElem?_map, List.getElem?_modify]
  cases sections[index]? with
  | none => rfl
  | some uciSection =>
    by_cases hplace : place = index
    · simp [hplace]
    · simp [hplace]

namespace UciStore

variable (store : UciStore) (config reference key : String)

/-- The options of a section are changed if it is there. -/
def update (change : UciOptions → UciOptions) : UciStore :=
  (store.modifyOptions config reference change).getD store

variable {store config reference}

theorem replace_eq_self {sections : List UciSection}
    (hsections : store.working[config]? = some sections) :
    store.replace config sections = store := by
  have hsame : store.working.insert config sections = store.working := by
    apply ExtTreeMap.ext_getElem?
    intro other
    rw [ExtTreeMap.getElem?_insert]
    split
    · next hequal =>
      rw [← hsections]
      congr 1
      exact LawfulEqCmp.eq_of_compare hequal
    · rfl
  unfold replace
  rw [hsame]

@[simp] theorem getElem?_replace (sections : List UciSection) :
    (store.replace config sections).working[config]? = some sections :=
  ExtTreeMap.getElem?_insert_self

theorem replace_replace (first second : List UciSection) :
    (store.replace config first).replace config second = store.replace config second := by
  have hinsert : (store.working.insert config first).insert config second =
      store.working.insert config second := by
    apply ExtTreeMap.ext_getElem?
    intro other
    simp only [ExtTreeMap.getElem?_insert]
    split <;> rfl
  unfold replace
  rw [hinsert]

/-- Two changes of a section with the same result for its options are one. -/
theorem update_congr {first second : UciOptions → UciOptions}
    (hsame : ∀ options, store.options? config reference = some options →
      first options = second options) :
    store.update config reference first = store.update config reference second := by
  unfold update modifyOptions modifySection
  cases hsections : store.working[config]? with
  | none => rfl
  | some sections =>
    cases hplace : resolve sections reference with
    | none => simp [hplace]
    | some place =>
      have hmodify : (sections.modify place fun uciSection ↦
          { uciSection with options := first uciSection.options }) =
            sections.modify place fun uciSection ↦
              { uciSection with options := second uciSection.options } := by
        apply List.ext_getElem?
        intro index
        rw [List.getElem?_modify, List.getElem?_modify]
        by_cases hindex : place = index
        · cases hfound : sections[index]? with
          | none => rfl
          | some uciSection =>
            have hoptions : store.options? config reference = some uciSection.options := by
              simp [options?, hsections, hplace, hindex, hfound]
            simp [hindex, hsame _ hoptions]
        · simp [hindex]
      simp [hplace, hmodify]

/-- No change at all. -/
theorem update_id : store.update config reference id = store := by
  unfold update modifyOptions modifySection
  cases hsections : store.working[config]? with
  | none => rfl
  | some sections =>
    cases hplace : resolve sections reference with
    | none => simp [hplace]
    | some place =>
      have hmodify : (sections.modify place fun uciSection ↦
          { uciSection with options := id uciSection.options }) = sections := by
        apply List.ext_getElem?
        intro index
        rw [List.getElem?_modify]
        simp
      rw [Option.bind_some, hplace]
      show store.replace config (sections.modify place fun uciSection ↦
        { uciSection with options := id uciSection.options }) = store
      rw [hmodify, replace_eq_self hsections]

/-- Where there is no such section, nothing changes. -/
theorem update_of_none (hnone : store.options? config reference = none)
    (change : UciOptions → UciOptions) : store.update config reference change = store := by
  have hsame : store.update config reference change = store.update config reference id := by
    apply update_congr
    intro options hoptions
    rw [hnone] at hoptions
    exact absurd hoptions (by simp)
  rw [hsame, update_id]

/-- What a section holds after a change. -/
theorem options?_update (change : UciOptions → UciOptions) :
    (store.update config reference change).options? config reference =
      (store.options? config reference).map change := by
  unfold update modifyOptions modifySection
  cases hsections : store.working[config]? with
  | none => simp [options?, hsections]
  | some sections =>
    cases hplace : resolve sections reference with
    | none => simp [options?, hsections, hplace]
    | some place =>
      have hresolve := resolve_modify_options sections place change reference
      simp [options?, hsections, hplace, replace, hresolve, List.getElem?_modify,
        Option.map_map, Function.comp_def]

/-- One change after another. -/
theorem update_update (first second : UciOptions → UciOptions) :
    (store.update config reference first).update config reference second =
      store.update config reference (second ∘ first) := by
  unfold update modifyOptions modifySection
  cases hsections : store.working[config]? with
  | none => simp [hsections]
  | some sections =>
    cases hplace : resolve sections reference with
    | none => simp [hsections, hplace]
    | some place =>
      have hresolve := resolve_modify_options sections place first reference
      simp only [Option.bind_some, hplace, Option.map_some, Option.getD_some, getElem?_replace,
        hresolve, replace_replace, List.modify_modify_eq]
      rfl

/-- Two changes come to the same exactly if they do for the options that are there. -/
theorem update_eq_update_iff (first second : UciOptions → UciOptions) :
    store.update config reference first = store.update config reference second ↔
      ∀ options, store.options? config reference = some options →
        first options = second options := by
  refine ⟨fun hequal options hoptions ↦ ?_, update_congr⟩
  have hread := congrArg (·.options? config reference) hequal
  simp only [options?_update, hoptions, Option.map_some] at hread
  exact Option.some.inj hread

/-- A delete that fails has nothing to delete. -/
theorem deleteOption_getD :
    (store.deleteOption config reference key).getD store =
      store.update config reference (·.erase key) := by
  unfold deleteOption
  split
  · rfl
  · next habsent =>
    have hsame :
        store.update config reference (·.erase key) = store.update config reference id := by
      apply update_congr
      intro options hoptions
      rw [hoptions, Option.any_some] at habsent
      apply ExtTreeMap.ext_getElem?
      intro other
      rw [ExtTreeMap.getElem?_erase]
      split
      · next hequal =>
        have hkey : key = other := LawfulEqCmp.eq_of_compare hequal
        rw [← hkey, id, ExtTreeMap.getElem?_eq_none habsent]
      · rfl
    rw [hsame, update_id]
    rfl

end UciStore

/-! ### The `uci` program -/

/-- What a path on the command line names. -/
inductive UciPath
  | package (config : String)
  | section (config reference : String)
  | option (config reference key : String)
  deriving DecidableEq, Repr

/-- `config`, `config.section` or `config.section.option`; more parts are refused. -/
def parsePath (text : List Char) : Option UciPath :=
  match text.splitOn '.' with
  | [config] => some (.package (String.ofList config))
  | [config, reference] => some (.section (String.ofList config) (String.ofList reference))
  | [config, reference, key] =>
    some (.option (String.ofList config) (String.ofList reference) (String.ofList key))
  | _ => none

/-- A path and the value behind the first equals sign. -/
def parseAssignment (text : List Char) : Option (UciPath × String) :=
  match text.dropWhile (· ≠ '=') with
  | [] => none
  | _ :: value => (parsePath (text.takeWhile (· ≠ '='))).map fun path ↦ (path, String.ofList value)

theorem parsePath_section {config reference : String} (hconfig : '.' ∉ config.toList)
    (hreference : '.' ∉ reference.toList) :
    parsePath (config.toList ++ '.' :: reference.toList) = some (.section config reference) := by
  have hsplit : (config.toList ++ '.' :: reference.toList).splitOn '.' =
      [config.toList, reference.toList] := by
    have hparts : (['.'].intercalate [config.toList, reference.toList]).splitOn '.' =
        [config.toList, reference.toList] :=
      List.splitOn_intercalate '.' (by simp [hconfig, hreference]) (by simp)
    simpa [List.intercalate] using hparts
  rw [parsePath, hsplit]
  simp

theorem parsePath_option {config reference key : String} (hconfig : '.' ∉ config.toList)
    (hreference : '.' ∉ reference.toList) (hkey : '.' ∉ key.toList) :
    parsePath (config.toList ++ '.' :: (reference.toList ++ '.' :: key.toList)) =
      some (.option config reference key) := by
  have hsplit : (config.toList ++ '.' :: (reference.toList ++ '.' :: key.toList)).splitOn '.' =
      [config.toList, reference.toList, key.toList] := by
    have hparts : (['.'].intercalate [config.toList, reference.toList, key.toList]).splitOn '.' =
        [config.toList, reference.toList, key.toList] :=
      List.splitOn_intercalate '.' (by simp [hconfig, hreference, hkey]) (by simp)
    simpa [List.intercalate] using hparts
  rw [parsePath, hsplit]
  simp

theorem parseAssignment_append {path : List Char} (hpath : '=' ∉ path) (value : String) :
    parseAssignment (path ++ '=' :: value.toList) =
      (parsePath path).map fun parsed ↦ (parsed, value) := by
  have hdrop : (path ++ '=' :: value.toList).dropWhile (· ≠ '=') = '=' :: value.toList := by
    rw [List.dropWhile_append_of_pos]
    · simp
    · intro character hcharacter
      simp only [ne_eq, decide_not, Bool.not_eq_eq_eq_not, Bool.not_true, decide_eq_false_iff_not]
      exact fun hequal ↦ hpath (hequal ▸ hcharacter)
  have htake : (path ++ '=' :: value.toList).takeWhile (· ≠ '=') = path := by
    rw [List.takeWhile_append_of_pos]
    · simp
    · intro character hcharacter
      simp only [ne_eq, decide_not, Bool.not_eq_eq_eq_not, Bool.not_true, decide_eq_false_iff_not]
      exact fun hequal ↦ hpath (hequal ▸ hcharacter)
  rw [parseAssignment, hdrop, htake]
  simp

/-- The commands of the program. -/
inductive UciVerb
  | set
  | addList
  | delete
  | add
  | commit
  deriving DecidableEq, Repr

/-- A command by its name. -/
def UciVerb.parse (text : List Char) : Option UciVerb :=
  if text = "set".toList then some .set
  else if text = "add_list".toList then some .addList
  else if text = "delete".toList then some .delete
  else if text = "add".toList then some .add
  else if text = "commit".toList then some .commit
  else none

/-- `uci set`. -/
def uciSet (store : UciStore) (argument : List Char) : Option UciStore :=
  (parseAssignment argument).bind fun (path, value) ↦
    match path with
    | .package _ => none
    | .section config reference => store.setSection config reference value
    | .option config reference key =>
      store.modifyOptions config reference (·.assign key (.single value))

/-- `uci add_list`. -/
def uciAddList (store : UciStore) (argument : List Char) : Option UciStore :=
  (parseAssignment argument).bind fun (path, value) ↦
    match path with
    | .package _ | .section _ _ => none
    | .option config reference key =>
      store.modifyOptions config reference (·.append key value)

/-- `uci delete`. -/
def uciDelete (store : UciStore) (argument : List Char) : Option UciStore :=
  (parsePath argument).bind fun path ↦
    match path with
    | .package _ => none
    | .section config reference => store.deleteSection config reference
    | .option config reference key => store.deleteOption config reference key

/-- The program with its arguments. -/
def uci (fresh : List UciSection → String → String) (store : UciStore) :
    List (List Char) → Option UciStore
  | [] => none
  | verb :: arguments =>
    (UciVerb.parse verb).bind fun verb ↦
      match verb, arguments with
      | .set, [argument] => uciSet store argument
      | .addList, [argument] => uciAddList store argument
      | .delete, [argument] => uciDelete store argument
      | .add, [config, type] =>
        store.addSection (String.ofList config) fresh (String.ofList type) ∅
      | .commit, [config] => store.commit (String.ofList config)
      | _, _ => none

/-- A simple command. Other programs leave the configuration alone. -/
def runCommand (fresh : List UciSection → String → String) (store : UciStore)
    (words : List (List Char)) : UciStore × Bool :=
  match words with
  | [] => (store, true)
  | command :: arguments =>
    if command = "uci".toList then
      match uci fresh store arguments with
      | some changed => (changed, true)
      | none => (store, false)
    else (store, true)

end Tollgate
