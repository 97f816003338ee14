import Vhdl.Config.Reader
import Vhdl.Proofs.Table

/-! # Layers of configuration

Configuration texts are read one by one and put on top of each other. Libraries are merged: each
keeps the setting of the last text that lists it. The standard and the severities are not. A text
that does not mention them is read with their defaults, and these replace what earlier texts set.
-/

namespace Vhdl

section Latest

variable {α β σ : Type}

/-- The value of the last member that has one. -/
def latest (value? : α → Option β) : List α → Option β
  | [] => none
  | x :: rest => (latest value? rest).or (value? x)

theorem latest_eq_none_iff {value? : α → Option β} {xs : List α} :
    latest value? xs = none ↔ ∀ x ∈ xs, value? x = none := by
  induction xs with
  | nil => simp [latest]
  | cons x rest ih => rw [latest, Option.or_eq_none_iff, ih, List.forall_mem_cons, and_comm]

theorem latest_some (value : α → β) (xs : List α) :
    latest (fun x => some (value x)) xs = xs.getLast?.map value := by
  induction xs with
  | nil => rfl
  | cons x rest ih =>
    rw [latest, ih, List.getLast?_cons]
    cases rest.getLast? <;> rfl

/-- If every step shows the value of its member, or what was to be seen before where the member has
none, then the latest value is seen in the end. -/
theorem observe_foldl (step : σ → α → σ) (observe : σ → β) (value? : α → Option β)
    (h : ∀ state x, observe (step state x) = (value? x).getD (observe state)) (state : σ)
    (xs : List α) : observe (xs.foldl step state) = (latest value? xs).getD (observe state) := by
  induction xs generalizing state with
  | nil => rfl
  | cons x rest ih =>
    rw [List.foldl_cons, ih, h, latest]
    cases latest value? rest <;> rfl

theorem latest_concat (value? : α → Option β) (xs : List α) (x : α) :
    latest value? (xs ++ [x]) = (value? x).or (latest value? xs) := by
  induction xs with
  | nil => exact (Option.none_or ..).trans (Option.or_none ..).symm
  | cons y rest ih => rw [List.cons_append, latest, ih, latest, Option.or_assoc]

/-- Where only the last member counts, and counts with a default, the latest value is seen if the
last member has a value, and otherwise only if the latest value is the default. -/
theorem last_eq_latest_iff (value? : α → Option β) (default start : β) (xs : List α) :
    (xs.getLast?.map fun x => (value? x).getD default).getD start =
        (latest value? xs).getD start ↔
      ∀ x ∈ xs.getLast?, value? x = none → (latest value? xs).getD start = default := by
  rcases List.eq_nil_or_concat xs with rfl | ⟨front, last, rfl⟩
  · simp [latest]
  · rw [List.concat_eq_append, List.getLast?_concat, latest_concat]
    cases hv : value? last with
    | none => simp [hv, eq_comm]
    | some value => simp [hv]

end Latest

namespace TomlTable

def part (table : TomlTable) (name : String) : TomlTable :=
  ((table.get? name).bind Toml.table?).getD []

def standard? (table : TomlTable) : Option Standard :=
  (table.get? "standard").map fun value => (value.string?.bind Standard.ofName?).getD default

/-- The flag of a library. Without one the library is not predefined. -/
def flagOf (value : Toml) : Bool :=
  ((value.table?.bind (·.get? "predefined")).bind Toml.boolean?).getD false

def predefined? (table : TomlTable) (name : String) : Option Bool :=
  latest (fun entry => if lower entry.1 = lower name then some (flagOf entry.2) else none)
    (table.part "libraries")

/-- The severity that a value stands for. The value `true` stands for none. -/
def severityOf : Toml → Option (Option Severity)
  | .string text => some (Severity.ofName? text)
  | .boolean false => some none
  | _ => none

def severity? (table : TomlTable) (code : ErrorCode) : Option (Option Severity) :=
  latest (fun entry => if entry.1 = code.name then severityOf entry.2 else none) (table.part "lint")

end TomlTable

theorem ErrorCode.ofName?_eq_some_iff {text : String} {code : ErrorCode} :
    ofName? text = some code ↔ text = code.name := by
  constructor
  · intro h
    simpa [eq_comm] using List.find?_some h
  · rintro rfl
    cases code <;> rfl

theorem SeverityMap.severity_set (map : SeverityMap) (code other : ErrorCode)
    (severity : Option Severity) : (map.set code severity).severity other =
      if other = code then severity else map.severity other :=
  rfl

namespace Config

variable {table : TomlTable}

theorem readStandard_ok {standard : Standard} (h : readStandard table = .ok standard) :
    standard = table.standard?.getD default := by
  unfold readStandard at h
  unfold TomlTable.standard?
  split at h
  · next hg =>
    rw [hg]
    exact (Except.ok.inj h).symm
  · next text hg =>
    split at h
    · next found hf =>
      simp [hg, Toml.string?, hf, Except.ok.inj h]
    · cases h
  · cases h

theorem readLibrary_ok {name : String} {value : Toml} {setting : LibrarySetting}
    (h : readLibrary name value = .ok setting) : setting = ⟨name, TomlTable.flagOf value⟩ := by
  unfold readLibrary at h
  unfold TomlTable.flagOf
  split at h
  · cases h
  · split at h
    · cases h
    · next entries ht =>
      split at h
      · next hg => simp [ht, hg, ← Except.ok.inj h]
      · next flag hg => simp [ht, hg, Toml.boolean?, ← Except.ok.inj h]
      · cases h

theorem get?_addLibraries {entries : TomlTable} {settings result : Table String LibrarySetting}
    (h : addLibraries settings entries = .ok result) (name : String) :
    (result.get? (lower name)).map LibrarySetting.predefined =
      (latest (fun entry => if lower entry.1 = lower name then some (TomlTable.flagOf entry.2)
        else none) entries).or ((settings.get? (lower name)).map LibrarySetting.predefined) := by
  induction entries generalizing settings with
  | nil =>
    cases Except.ok.inj h
    rfl
  | cons entry rest ih =>
    obtain ⟨key, value⟩ := entry
    rw [addLibraries] at h
    split at h
    · cases h
    · next setting hs =>
      rw [ih h, latest, Table.get?_insert, readLibrary_ok hs, Option.or_assoc]
      simp only [eq_comm (a := lower key)]
      split <;> rfl

/-- Every setting is in its place: under the name of its library in lower case, and nowhere else. -/
structure Filed (libraries : Table String LibrarySetting) : Prop where
  nodup : libraries.keys.Nodup
  name : ∀ key setting, libraries.get? key = some setting → key = lower setting.name

theorem filed_empty : Filed {} :=
  ⟨List.nodup_nil, fun _ _ h => by cases h⟩

theorem Filed.insert {libraries : Table String LibrarySetting} (h : Filed libraries) {key : String}
    {setting : LibrarySetting} (hk : key = lower setting.name) :
    Filed (libraries.insert key setting) := by
  refine ⟨Table.nodup_keys_insert h.nodup .., fun other found hf => ?_⟩
  rw [Table.get?_insert] at hf
  split at hf
  · next ho =>
    cases hf
    exact ho.trans hk
  · exact h.name other found hf

theorem filed_addLibraries {entries : TomlTable} {settings result : Table String LibrarySetting}
    (h : addLibraries settings entries = .ok result) (hf : Filed settings) : Filed result := by
  induction entries generalizing settings with
  | nil =>
    cases Except.ok.inj h
    exact hf
  | cons entry rest ih =>
    rw [addLibraries] at h
    split at h
    · cases h
    · next setting hs => exact ih h (hf.insert (by rw [readLibrary_ok hs]))

theorem readLibraries_ok {libraries : Table String LibrarySetting}
    (h : readLibraries table = .ok libraries) :
    addLibraries {} (table.part "libraries") = .ok libraries := by
  unfold readLibraries at h
  unfold TomlTable.part
  split at h
  · next hg => simpa [hg, addLibraries] using h
  · next entries hg => simpa [hg, Toml.table?] using h
  · cases h

theorem setSeverity_ok {map result : SeverityMap} {code : ErrorCode} {value : Toml}
    (h : setSeverity map code value = .ok result) (other : ErrorCode) : result.severity other =
      (if other = code then TomlTable.severityOf value else none).getD (map.severity other) := by
  unfold setSeverity at h
  split at h
  · next text =>
    split at h
    · next severity hs =>
      rw [← Except.ok.inj h, SeverityMap.severity_set, TomlTable.severityOf, hs]
      split <;> rfl
    · cases h
  · rw [← Except.ok.inj h, show TomlTable.severityOf (.boolean true) = none from rfl, ite_self]
    rfl
  · rw [← Except.ok.inj h, SeverityMap.severity_set, TomlTable.severityOf]
    split <;> rfl
  · cases h

theorem setSeverities_ok {entries : TomlTable} {map result : SeverityMap}
    (h : setSeverities map entries = .ok result) (code : ErrorCode) : result.severity code =
      (latest (fun entry => if entry.1 = code.name then TomlTable.severityOf entry.2 else none)
        entries).getD (map.severity code) := by
  induction entries generalizing map with
  | nil =>
    cases Except.ok.inj h
    rfl
  | cons entry rest ih =>
    obtain ⟨name, value⟩ := entry
    rw [setSeverities] at h
    split at h
    · cases h
    · next found hf =>
      split at h
      · cases h
      · next next hs =>
        obtain rfl := ErrorCode.ofName?_eq_some_iff.mp hf
        have hname : found.name = code.name ↔ code = found := by
          rw [← ErrorCode.ofName?_eq_some_iff, hf, Option.some.injEq, eq_comm]
        rw [ih h, latest, setSeverity_ok hs]
        simp only [hname]
        cases latest _ rest <;> rfl

theorem readSeverities_ok {map : SeverityMap} (h : readSeverities table = .ok map) :
    setSeverities default (table.part "lint") = .ok map := by
  unfold readSeverities at h
  unfold TomlTable.part
  split at h
  · next hg => simpa [hg, setSeverities] using h
  · next entries hg => simpa [hg, Toml.table?] using h
  · cases h

structure ReadFrom (table : TomlTable) (config : Config) : Prop where
  standard : config.standard = table.standard?.getD default
  predefined : ∀ name,
    (config.library? name).map LibrarySetting.predefined = table.predefined? name
  severity : ∀ code, config.severities.severity code =
    (table.severity? code).getD (some code.defaultSeverity)
  filed : Filed config.libraries

theorem ofTable_ok {config : Config} (h : ofTable table = .ok config) : config.ReadFrom table := by
  unfold ofTable at h
  split at h
  · cases h
  · next standard hstandard =>
    split at h
    · cases h
    · next libraries hlibraries =>
      split at h
      · cases h
      · next severities hseverities =>
        cases Except.ok.inj h
        have hadd := readLibraries_ok hlibraries
        refine ⟨readStandard_ok hstandard, fun name => ?_, ?_, ?_⟩
        · exact (get?_addLibraries hadd name).trans Option.or_none
        · exact setSeverities_ok (readSeverities_ok hseverities)
        · exact filed_addLibraries hadd filed_empty

theorem get?_foldl_appendLibrary {entries : List (String × LibrarySetting)}
    (hn : (entries.map Prod.fst).Nodup) (libraries : Table String LibrarySetting) (key : String) :
    (entries.foldl appendLibrary libraries).get? key =
      ((⟨entries⟩ : Table String LibrarySetting).get? key).or (libraries.get? key) := by
  induction entries generalizing libraries with
  | nil => rfl
  | cons entry rest ih =>
    obtain ⟨hnew, hn⟩ := List.nodup_cons.mp hn
    rw [List.foldl_cons, ih hn, appendLibrary, Table.get?_insert]
    by_cases hk : key = entry.1
    · have hrest : (⟨rest⟩ : Table String LibrarySetting).get? key = none :=
        Table.get?_eq_none_iff.mpr (hk ▸ hnew)
      rw [hrest, if_pos hk, Option.none_or]
      simp [Table.get?, hk]
    · simp [hk, Ne.symm hk, Table.get?]

theorem library?_append (config : Config) {other : Config} (hn : other.libraries.keys.Nodup)
    (name : String) :
    (config.append other).library? name = (other.library? name).or (config.library? name) :=
  get?_foldl_appendLibrary hn config.libraries (lower name)

theorem isPredefined_eq_getD (config : Config) (name : String) : config.isPredefined name =
    ((config.library? name).map LibrarySetting.predefined).getD
      (lower name = "std" || lower name = "ieee") := by
  unfold isPredefined
  cases config.library? name <;> rfl

theorem isPredefined_append (config : Config) {other : Config}
    (hn : other.libraries.keys.Nodup) (name : String) : (config.append other).isPredefined name =
      ((other.library? name).map LibrarySetting.predefined).getD (config.isPredefined name) := by
  rw [isPredefined_eq_getD, library?_append config hn, isPredefined_eq_getD]
  cases other.library? name <;> rfl

end Config

/-- A valid configuration text and what it is read as, whatever parser makes tables of texts. -/
structure ConfigText (parse : String → Option TomlTable) where
  text : String
  config : Config
  valid : Config.readText parse text = .ok config

namespace ConfigText

variable {parse : String → Option TomlTable}

def table (text : ConfigText parse) : TomlTable :=
  (parse text.text).getD []

def ofValid (text : String) (h : (Config.readText parse text).toOption.isSome = true) :
    ConfigText parse where
  text
  config := (Config.readText parse text).toOption.get h
  valid := by
    generalize Config.readText parse text = read at h ⊢
    cases read with
    | error => cases h
    | ok => rfl

theorem readFrom (text : ConfigText parse) : text.config.ReadFrom text.table := by
  have hvalid := text.valid
  unfold Config.readText at hvalid
  unfold table
  split at hvalid
  · cases hvalid
  · next table ht =>
    rw [ht]
    exact Config.ofTable_ok hvalid

end ConfigText

namespace Config

variable {parse : String → Option TomlTable}

def layered (start : Config) (texts : List (ConfigText parse)) : Config :=
  texts.foldl (fun config text => config.append text.config) start

variable (start : Config) (texts : List (ConfigText parse))

/-- The standard that the last text chooses which chooses one. -/
def chosenStandard : Standard :=
  (latest (·.table.standard?) texts).getD start.standard

def chosenSeverity (code : ErrorCode) : Option Severity :=
  (latest (·.table.severity? code) texts).getD (start.severities.severity code)

theorem isPredefined_layered (name : String) : (start.layered texts).isPredefined name =
    (latest (·.table.predefined? name) texts).getD (start.isPredefined name) := by
  refine observe_foldl _ (·.isPredefined name) _ (fun config text => ?_) start texts
  rw [isPredefined_append config text.readFrom.filed.nodup, text.readFrom.predefined]

theorem library?_layered (name : String) : (start.layered texts).library? name =
    (latest (fun text => (text.config.library? name).map some) texts).getD
      (start.library? name) := by
  refine observe_foldl _ (·.library? name) _ (fun config text => ?_) start texts
  rw [library?_append config text.readFrom.filed.nodup]
  cases text.config.library? name <;> rfl

theorem library?_layered_of_unlisted {name : String}
    (h : ∀ text ∈ texts, text.table.predefined? name = none) :
    (start.layered texts).library? name = start.library? name := by
  have hnone : latest (fun text => (text.config.library? name).map some) texts = none := by
    refine latest_eq_none_iff.mpr fun text ht => ?_
    rw [Option.map_eq_none_iff, ← Option.map_eq_none_iff (f := LibrarySetting.predefined),
      text.readFrom.predefined, h text ht]
  rw [library?_layered, hnone, Option.getD_none]

theorem standard_layered : (start.layered texts).standard =
    (texts.getLast?.map fun text => text.table.standard?.getD default).getD start.standard := by
  rw [← latest_some]
  exact observe_foldl _ Config.standard _ (fun _ text => text.readFrom.standard) start texts

theorem severity_layered (code : ErrorCode) : (start.layered texts).severities.severity code =
    (texts.getLast?.map fun text =>
      (text.table.severity? code).getD (some code.defaultSeverity)).getD
        (start.severities.severity code) := by
  rw [← latest_some]
  refine observe_foldl _ (·.severities.severity code) _ (fun config text => ?_) start texts
  exact text.readFrom.severity code

/-- What the layers of a configuration make of its settings. -/
structure LayersExact (start : Config) (texts : List (ConfigText parse)) : Prop where
  predefined : ∀ name, (start.layered texts).isPredefined name =
    (latest (·.table.predefined? name) texts).getD (start.isPredefined name)
  unlisted : ∀ name, (∀ text ∈ texts, text.table.predefined? name = none) →
    (start.layered texts).library? name = start.library? name
  standard : (start.layered texts).standard =
    (texts.getLast?.map fun text => text.table.standard?.getD default).getD start.standard
  severity : ∀ code, (start.layered texts).severities.severity code =
    (texts.getLast?.map fun text =>
      (text.table.severity? code).getD (some code.defaultSeverity)).getD
        (start.severities.severity code)
  /-- The standard is lost if the last text chooses none, unless it is the default. -/
  standard_iff : (start.layered texts).standard = start.chosenStandard texts ↔
    ∀ last ∈ texts.getLast?, last.table.standard? = none → start.chosenStandard texts = default
  severity_iff : ∀ code,
    (start.layered texts).severities.severity code = start.chosenSeverity texts code ↔
      ∀ last ∈ texts.getLast?, last.table.severity? code = none →
        start.chosenSeverity texts code = some code.defaultSeverity

/-- Each library has the flag of the last text that lists it. The standard and the severities are
those of the last text, with defaults for what it does not set, whatever the texts before it say. -/
theorem layers_exact : LayersExact start texts where
  predefined := isPredefined_layered start texts
  unlisted _ := library?_layered_of_unlisted start texts
  standard := standard_layered start texts
  severity := severity_layered start texts
  standard_iff := by
    rw [standard_layered]
    exact last_eq_latest_iff _ default start.standard texts
  severity_iff code := by
    rw [severity_layered]
    exact last_eq_latest_iff _ _ (start.severities.severity code) texts

def harbourText : ConfigText TomlTable.ofText? :=
  .ofValid "standard = '1993'" (by decide +kernel)

def beaconText : ConfigText TomlTable.ofText? :=
  .ofValid "[lint]\nno_top_level = false" (by decide +kernel)

def tideText : ConfigText TomlTable.ofText? :=
  .ofValid "[libraries]\ntide.predefined = true" (by decide +kernel)

/-- The last text only lists a library, and what the others set is lost. -/
theorem tideText_resets :
    (tideText.table.standard? = none ∧ tideText.table.severity? .noTopLevel = none) ∧
    (default : Config).chosenStandard [harbourText, beaconText, tideText] = .vhdl1993 ∧
    ((default : Config).layered [harbourText, beaconText, tideText]).standard = .vhdl2008 ∧
    (default : Config).chosenSeverity [harbourText, beaconText, tideText] .noTopLevel = none ∧
    ((default : Config).layered [harbourText, beaconText, tideText]).severities.severity
      .noTopLevel = some .warning := by
  refine ⟨⟨?_, ?_⟩, ?_, ?_, ?_, ?_⟩ <;> decide +kernel

end Config

end Vhdl
