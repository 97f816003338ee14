import Vhdl.Proofs.Grammar
import Vhdl.Proofs.Layers
import Vhdl.Proofs.Roots

/-! # Predefined libraries and how they are spelled

A configuration finds libraries by their names in lower case. For basic identifiers this is how they
are compared. Extended identifiers keep their case, so that two of them may be different although
they are the same in lower case. These share one setting.
-/

namespace Vhdl

namespace Identifier

/-- Two different extended identifiers that are the same but for the case of letters. -/
structure Lookalike (a b : Identifier) : Prop where
  left : a.isExtended = true
  right : b.isExtended = true
  different : a.text ≠ b.text
  alike : lower a.text = lower b.text

variable {a b : Identifier}

theorem isExtended_eq_of_lower_eq (h : lower a.text = lower b.text) :
    a.isExtended = b.isExtended := by
  have hbasic : ∀ {a b : Identifier}, lower a.text = lower b.text → a.isExtended = false →
      b.isExtended = false := by
    intro a b h ha
    rw [isExtended, enclosed?_of_normalized_eq_lower ha ((normalized_of_basic ha).trans h)]
    rfl
  cases ha : a.isExtended with
  | false => exact (hbasic h ha).symm
  | true =>
    cases hb : b.isExtended with
    | true => rfl
    | false => exact ha.symm.trans (hbasic h.symm hb)

theorem lower_text_eq_iff :
    lower a.text = lower b.text ↔ (a == b) = true ∨ a.Lookalike b := by
  rw [beq_iff_normalized]
  constructor
  · intro h
    have hx := isExtended_eq_of_lower_eq h
    cases ha : a.isExtended with
    | false =>
      rw [normalized_of_basic ha, normalized_of_basic (hx ▸ ha)]
      exact .inl h
    | true =>
      have hb : b.isExtended = true := hx ▸ ha
      rw [normalized_of_isExtended ha, normalized_of_isExtended hb]
      by_cases ht : a.text = b.text
      · exact .inl ht
      · exact .inr ⟨ha, hb, ht, h⟩
  · rintro (h | h)
    · rcases normalized_eq_iff.mp h with ht | ⟨_, _, hl⟩
      · rw [ht]
      · exact hl
    · exact h.alike

theorem lower_text_eq_iff_of_basic (hb : b.isExtended = false) :
    lower a.text = lower b.text ↔ (a == b) = true := by
  rw [lower_text_eq_iff, or_iff_left]
  intro h
  cases h.right.symm.trans hb

end Identifier

namespace Config

inductive Made : Config → Prop where
  | default : Made default
  | read {parse : String → Option TomlTable} {text : String} {config : Config} :
      readText parse text = .ok config → Made config
  | append {config other : Config} : Made config → Made other → Made (config.append other)
  | setPredefined {config : Config} (name : String) (predefined : Bool) :
      Made config → Made (config.setPredefined name predefined)
  | withStandard {config : Config} (standard : Standard) :
      Made config → Made (config.withStandard standard)

theorem Filed.append {config other : Config} (h : Filed config.libraries)
    (ho : Filed other.libraries) : Filed (config.append other).libraries := by
  have hall : ∀ entry ∈ other.libraries.entries, entry.1 = lower entry.2.name :=
    fun entry hm => ho.name _ _ ((Table.mem_entries_iff ho.nodup).mp hm)
  change Filed (other.libraries.entries.foldl appendLibrary config.libraries)
  generalize config.libraries = libraries at h
  generalize other.libraries.entries = entries at hall
  induction entries generalizing libraries with
  | nil => exact h
  | cons entry rest ih =>
    rw [List.forall_mem_cons] at hall
    exact ih _ (h.insert hall.1) hall.2

theorem Filed.setPredefined {config : Config} (h : Filed config.libraries) (name : String)
    (predefined : Bool) : Filed (config.setPredefined name predefined).libraries := by
  refine h.insert ?_
  cases hs : config.library? name with
  | none => rfl
  | some setting => exact h.name (lower name) setting hs

theorem Made.filed {config : Config} (h : config.Made) : Filed config.libraries := by
  induction h with
  | default => exact filed_empty
  | @read _ text config h => exact (ConfigText.mk text config h).readFrom.filed
  | append _ _ ih ih' => exact ih.append ih'
  | setPredefined name predefined _ ih => exact ih.setPredefined name predefined
  | withStandard _ _ ih => exact ih

theorem isPredefined_setPredefined (config : Config) (name other : String) (predefined : Bool) :
    (config.setPredefined name predefined).isPredefined other =
      if lower name = lower other then predefined else config.isPredefined other := by
  rw [isPredefined_eq_getD, library?, setPredefined, Table.get?_insert, isPredefined_eq_getD]
  simp only [eq_comm (a := lower other)]
  split <;> rfl

/-- What a configuration says of a library whose names pass the test: the flag of a setting with
such a name, or else whether the library is `std` or `ieee`. -/
def flag (config : Config) (ident : Identifier) (test : String → Bool) : Bool :=
  ((config.libraries.values.find? fun setting => test setting.name).map
    LibrarySetting.predefined).getD (ident == Predefined.std || ident == Predefined.ieee)

theorem Filed.library?_eq {config : Config} (h : Filed config.libraries) (name : String) :
    config.library? name =
      config.libraries.values.find? fun setting => lower setting.name = lower name := by
  rw [Table.values, List.find?_map]
  refine congrArg (Option.map _) (List.find?_congr fun entry hm => ?_)
  rw [h.name _ _ ((Table.mem_entries_iff h.nodup).mp hm)]
  rfl

theorem Filed.isPredefined_eq {config : Config} (h : Filed config.libraries)
    (ident : Identifier) : config.isPredefined ident.text =
      config.flag ident fun name => lower name = lower ident.text := by
  have hd : ∀ other : Identifier, other.isExtended = false →
      decide (lower ident.text = lower other.text) = (ident == other) := by
    intro other ho
    rw [Bool.eq_iff_iff, decide_eq_true_iff, Identifier.lower_text_eq_iff_of_basic ho]
  rw [isPredefined_eq_getD, h.library?_eq, flag, ← hd Predefined.std (by decide +kernel),
    ← hd Predefined.ieee (by decide +kernel)]
  rfl

theorem flag_of_basic (config : Config) {ident : Identifier} (h : ident.isExtended = false) :
    config.flag ident (fun name => lower name = lower ident.text) =
      config.flag ident ident.isNamed := by
  have ht : (fun name => decide (lower name = lower ident.text)) = ident.isNamed := by
    funext name
    rw [Identifier.isNamed, h, if_neg Bool.false_ne_true, Identifier.normalized_of_basic h]
    exact decide_eq_decide.mpr eq_comm
  rw [ht]

end Config

def Store.libraryOf? (store : Store) : Target → Option Library
  | .library id => store.library? id
  | .unit id => (store.registered? id).map RegisteredUnit.library

/-- A vertex is predefined if the settings say so that have the name of its library in any case. If
the library has a basic identifier, these settings denote it. -/
def Analysis.FlagsExact (analysis : Analysis) (store : Store) : Prop :=
  ∀ number vertex, analysis.dependency.label? number = some vertex →
    ∃ library, store.libraryOf? vertex.target = some library ∧
      vertex.predefined =
        store.config.flag library.ident (fun name => lower name = lower library.name) ∧
      (library.ident.isExtended = false →
        vertex.predefined = store.config.flag library.ident library.ident.isNamed)

theorem Analysis.Faithful.exists_library {analysis : Analysis} {store : Store}
    (h : analysis.Faithful store) {number : Nat} {vertex : UnitVertex}
    (hv : analysis.dependency.label? number = some vertex) :
    ∃ library, store.libraryOf? vertex.target = some library ∧
      vertex.predefined = store.config.isPredefined library.name := by
  have hr := h.settled.registry
  obtain ⟨entry, he, rfl⟩ := Option.map_eq_some_iff.mp hv
  have hm : entry ∈ store.vertices := h.vertices ▸ List.mem_of_getElem? he
  rcases hr.mem_vertices.mp hm with ⟨library, hl, rfl⟩ | ⟨registered, hg, rfl⟩
  · exact ⟨library, hr.library?_iff.mpr ⟨hl, rfl⟩, rfl⟩
  · exact ⟨registered.library, congrArg (Option.map RegisteredUnit.library) hg, rfl⟩

theorem Analysis.Faithful.flagsExact {analysis : Analysis} {store : Store}
    (h : analysis.Faithful store) (hc : store.config.Made) : analysis.FlagsExact store := by
  intro number vertex hv
  obtain ⟨library, hl, hp⟩ := h.exists_library hv
  have hflag := hp.trans (hc.filed.isPredefined_eq library.ident)
  exact ⟨library, hl, hflag, fun hb => hflag.trans (store.config.flag_of_basic hb)⟩

/-- Setting the flag of a library sets it for all libraries that have the same name in lower case.
These are the library itself and, if it has an extended identifier, its lookalikes. No other flag
changes, and in an analysis with the configuration the vertices of a library have its flag. -/
theorem Design.predefined_by_spelling (config : Config) :
    (∀ (a b : Identifier) (predefined : Bool),
      ((a == b) = false → ¬ a.Lookalike b →
        (config.setPredefined a.text predefined).isPredefined b.text =
          config.isPredefined b.text) ∧
      ((a == b) = true ∨ a.Lookalike b →
        (config.setPredefined a.text predefined).isPredefined b.text = predefined)) ∧
    (config.Made → ∀ design : Design, design.Reachable → design.store.config = config →
      ∃ analysis, design.analyze.design.analysis = some analysis ∧
        analysis.FlagsExact design.analyze.design.store) := by
  refine ⟨fun a b predefined => ?_, ?_⟩
  · rw [Config.isPredefined_setPredefined]
    refine ⟨fun hne hn => if_neg fun hl => ?_,
      fun he => if_pos (Identifier.lower_text_eq_iff.mpr he)⟩
    rcases Identifier.lower_text_eq_iff.mp hl with he | he
    · cases hne.symm.trans he
    · exact hn he
  · rintro hc design h rfl
    exact ⟨_, rfl, h.grounded.built.registry.faithful_analyze.flagsExact hc⟩

namespace Design

def vault : Identifier := ⟨"\\Vault\\", by decide +kernel⟩

def vaultInLowerCase : Identifier := ⟨"\\vault\\", by decide +kernel⟩

theorem vault_shares_setting : (vault == vaultInLowerCase) = false ∧
    (default : Config).isPredefined vaultInLowerCase.text = false ∧
    ((default : Config).setPredefined vault.text true).isPredefined vaultInLowerCase.text =
      true := by
  decide +kernel

/-- The two libraries and a third one, of which one is set to be predefined. -/
def vaults : Design :=
  let config := (default : Config).setPredefined vault.text true
  let design := ((withConfig config).createLibrary vault.text).design
  let design := (design.createLibrary vaultInLowerCase.text).design
  (design.createLibrary "cellar").design

theorem vaults_by_spelling :
    vault.Lookalike vaultInLowerCase ∧
    (vaults.store.config.setPredefined vault.text false).isPredefined vaultInLowerCase.text =
      false ∧
    (vault == Predefined.std) = false ∧ ¬ vault.Lookalike Predefined.std ∧
    (vaults.store.config.setPredefined vault.text false).isPredefined Predefined.std.text =
      vaults.store.config.isPredefined Predefined.std.text ∧
    vaults.Reachable ∧ vaults.store.config.Made ∧
    ∃ analysis, vaults.analyze.design.analysis = some analysis ∧
      analysis.FlagsExact vaults.analyze.design.store ∧
      analysis.dependency.vertices.map (fun entry => (entry.1, entry.2.predefined)) =
        [("\\Vault\\", true), ("\\vault\\", true), ("cellar", false)] := by
  have hr : vaults.Reachable :=
    .createLibrary _ (.createLibrary _ (.createLibrary _ (.start _)))
  have hm : vaults.store.config.Made := .setPredefined _ _ .default
  have hl : vault.Lookalike vaultInLowerCase := by constructor <;> decide +kernel
  have hne : (vault == Predefined.std) = false := by decide +kernel
  have hn : ¬ vault.Lookalike Predefined.std := fun h => absurd h.right (by decide +kernel)
  obtain ⟨hset, hvertices⟩ := predefined_by_spelling vaults.store.config
  obtain ⟨analysis, ha, hf⟩ := hvertices hm vaults hr rfl
  refine ⟨hl, (hset _ _ false).2 (.inr hl), hne, hn, (hset _ _ false).1 hne hn, hr, hm,
    analysis, ha, hf, ?_⟩
  cases ha
  decide +kernel

end Design

end Vhdl
