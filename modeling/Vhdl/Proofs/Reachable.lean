import Vhdl.Design.Predefined
import Vhdl.Proofs.InPlace

/-! # Reachable designs

A design is reachable if the operations build it from an empty one, in any order and with any
arguments, whether they succeed or fail. Its store is then built by changes of six kinds, and its
analysis, if it has one, is that of a built store.
-/

namespace Vhdl

namespace Design

/-- The designs that operations make out of an empty one. -/
inductive Reachable : Design → Prop where
  | start (config : Config) : Reachable (withConfig config)
  | setConfig {design : Design} (config : Config) :
      Reachable design → Reachable (design.setConfig config).design
  | createLibrary {design : Design} (name : String) :
      Reachable design → Reachable (design.createLibrary name).design
  | getOrCreateLibrary {design : Design} (name : String) :
      Reachable design → Reachable (design.getOrCreateLibrary name).design
  | addDocument {design : Design} (document : Document) (library : LibraryId) :
      Reachable design → Reachable (design.addDocument document library).design
  | addUnit {design : Design} (document : DocumentId) (unit : DesignUnit) :
      Reachable design → Reachable (design.addUnit document unit).design
  | modifyUnit {design : Design} (id : UnitId) (modify : DesignUnit → DesignUnit) :
      Reachable design → Reachable (design.modifyUnit id modify).design
  | loadStd {design : Design} : Reachable design → Reachable design.loadStd.design
  | loadIeee {design : Design} : Reachable design → Reachable design.loadIeee.design
  | analyze {design : Design} : Reachable design → Reachable design.analyze.design

/-- The store is built, and the analysis is that of a built store which it filled. -/
structure Grounded (design : Design) : Prop where
  built : design.store.Built
  analyzed : ∀ analysis, design.analysis = some analysis →
    ∃ store : Store, store.Built ∧ design.store = store.analyze.store ∧
      analysis = store.analyze.analysis

variable {α : Type} {design : Design}

theorem grounded_change (h : design.Grounded) {store : Store} (hc : design.store.Change store) :
    Grounded { store } where
  built := h.built.change hc
  analyzed _ ha := by cases ha

theorem grounded_createLibrary (h : design.Grounded) (name : String) :
    (design.createLibrary name).design.Grounded := by
  rw [createLibrary_eq]
  exact commit_inv h fun _ _ hs => grounded_change h (.createLibrary hs)

theorem grounded_getOrCreateLibrary (h : design.Grounded) (name : String) :
    (design.getOrCreateLibrary name).design.Grounded := by
  unfold getOrCreateLibrary
  split
  · exact h
  · exact grounded_createLibrary h name

theorem grounded_addDocument (h : design.Grounded) (document : Document) (library : LibraryId) :
    (design.addDocument document library).design.Grounded := by
  rw [addDocument_eq]
  exact commit_inv h fun _ _ hs => grounded_change h (.addDocument hs)

theorem grounded_addUnit (h : design.Grounded) (document : DocumentId) (unit : DesignUnit) :
    (design.addUnit document unit).design.Grounded := by
  rw [addUnit_eq]
  exact commit_inv h fun _ _ hs => grounded_change h (.addUnit hs)

theorem grounded_modifyUnit (h : design.Grounded) (id : UnitId)
    (modify : DesignUnit → DesignUnit) : (design.modifyUnit id modify).design.Grounded := by
  rw [modifyUnit_eq h.built.registry]
  exact commit_inv h fun _ _ hs => grounded_change h (.modifyUnit hs)

theorem grounded_addDocuments (h : design.Grounded) (library : LibraryId)
    (documents : List Document) : (design.addDocuments library documents).design.Grounded := by
  induction documents generalizing design with
  | nil => exact h
  | cons document rest ih =>
    exact Step.andThen_inv (grounded_addDocument h document library) fun _ _ hd => ih hd

theorem grounded_loadPredefined (h : design.Grounded) (name : String)
    (packages : List PredefinedPackage) :
    (design.loadPredefined name packages).design.Grounded := by
  unfold loadPredefined
  split
  · exact h
  · refine Step.andThen_inv (grounded_getOrCreateLibrary h name) fun id _ hd => ?_
    exact Step.andThen_inv (grounded_addDocuments hd id _) fun _ _ hd' => hd'

/-- What one operation preserves, every run of operations preserves. -/
theorem Reachable.grounded (h : design.Reachable) : design.Grounded := by
  induction h with
  | start config => exact ⟨.empty config, fun _ ha => by cases ha⟩
  | setConfig config _ ih =>
    rw [setConfig_eq]
    exact grounded_change ih (.config _ config)
  | createLibrary name _ ih => exact grounded_createLibrary ih name
  | getOrCreateLibrary name _ ih => exact grounded_getOrCreateLibrary ih name
  | addDocument document library _ ih => exact grounded_addDocument ih document library
  | addUnit document unit _ ih => exact grounded_addUnit ih document unit
  | modifyUnit id modify _ ih => exact grounded_modifyUnit ih id modify
  | loadStd _ ih => exact grounded_loadPredefined ih ..
  | loadIeee _ ih =>
    exact Step.andThen_inv (grounded_loadPredefined ih ..) fun _ _ hd =>
      grounded_loadPredefined hd ..
  | analyze _ ih =>
    exact ⟨ih.built.change (.analyze _), fun _ ha => by cases ha; exact ⟨_, ih.built, rfl, rfl⟩⟩

end Design

end Vhdl
