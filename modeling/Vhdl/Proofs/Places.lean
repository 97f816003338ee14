import Mathlib.Data.List.Sigma
import Vhdl.Proofs.Region
import Vhdl.Proofs.Scopes

/-! # The places of instances

From a region, the label of a block leads to the region inside it, and the label of a generate
statement to the regions of its alternatives. An instance is recorded at the end of such a path. If
every block, generate and instantiation statement has a label of its own in its list, the recorded
instances are exactly those that the statements hold, each at one place.
-/

namespace Vhdl

namespace Region

inductive Step where
  | block (label : String)
  | alternative (label : String) (index : Nat)
  deriving DecidableEq

def Step.label : Step → String
  | .block label | .alternative label _ => label

def step? (region : Region) : Step → Option Region
  | .block label => region.block? label
  | .alternative label index => (region.generate? label).bind (·[index]?)

def at? (region : Region) : List Step → Option Region
  | [] => some region
  | step :: path => (region.step? step).bind (·.at? path)

/-- Where an instance is recorded: the path to a region, and there its label and position. -/
@[ext]
structure Place where
  path : List Step
  label : String
  position : Nat

def Records (region : Region) (place : Place) : Prop :=
  (region.at? place.path).bind (·.instance? place.label) = some place.position

namespace Place

def inside (step : Step) (place : Place) : Place :=
  { place with path := step :: place.path }

def first (place : Place) : String :=
  match place.path with
  | [] => place.label
  | step :: _ => step.label

theorem inside_injective (step : Step) : Function.Injective (inside step) := by
  intro a b h
  simp only [inside, Place.mk.injEq, List.cons.injEq, true_and] at h
  exact Place.ext h.1 h.2.1 h.2.2

end Place

end Region

open Region (Step Place)

def ConcKind.regions : ConcKind → List (List Decl × List ConcStmt)
  | .block decls body => [(decls, body)]
  | kind => kind.alternatives.map fun body => (body.decls, body.statements)

def ConcKind.step (kind : ConcKind) (label : String) (index : Nat) : Step :=
  match kind with
  | .block _ _ => .block label
  | _ => .alternative label index

namespace ConcStmt

/-- Every statement that needs a label has one, which no other such statement of the list has, and
the same holds of the lists inside. -/
inductive WellLabelled : List ConcStmt → Prop where
  | mk {statements : List ConcStmt} :
      (∀ statement ∈ statements, statement.kind.requiresLabel = true → statement.label.isSome) →
      statements.Pairwise (fun a b => a.kind.requiresLabel = true → b.kind.requiresLabel = true →
        a.label.map Identifier.normalized ≠ b.label.map Identifier.normalized) →
      (∀ statement ∈ statements, ∀ body ∈ statement.kind.bodies, WellLabelled body) →
      WellLabelled statements

/-- The path leads from the list to the list inside. -/
inductive Leads : List ConcStmt → List Step → List ConcStmt → Prop where
  | here {statements : List ConcStmt} : Leads statements [] statements
  | inside {statements inner : List ConcStmt} {statement : ConcStmt} {label : String} {index : Nat}
      {region : List Decl × List ConcStmt} {path : List Step} : statement ∈ statements →
      statement.label.map Identifier.normalized = some label →
      statement.kind.regions[index]? = some region → Leads region.2 path inner →
      Leads statements (statement.kind.step label index :: path) inner

def key (statement : ConcStmt) : String :=
  (statement.label.map Identifier.normalized).getD ""

end ConcStmt

theorem ConcKind.map_regions (kind : ConcKind) : kind.regions.map Prod.snd = kind.bodies := by
  cases kind with
  | ifGenerate branches otherwise =>
    simp only [regions, alternatives, bodies, List.map_append, List.map_map]
    congr 1
    refine List.map_congr_left fun branch _ => ?_
    cases branch
    rfl
  | caseGenerate selector branches =>
    simp only [regions, alternatives, bodies, List.map_map]
    refine List.map_congr_left fun branch _ => ?_
    cases branch
    rfl
  | _ => rfl

theorem ConcKind.mem_bodies {kind : ConcKind} {region : List Decl × List ConcStmt}
    (h : region ∈ kind.regions) : region.2 ∈ kind.bodies :=
  kind.map_regions ▸ List.mem_map_of_mem h

theorem ConcKind.requiresLabel_of_mem {kind : ConcKind} {region : List Decl × List ConcStmt}
    (h : region ∈ kind.regions) : kind.requiresLabel = true := by
  cases kind with
  | process | assert | assign | call | instantiation => cases h
  | _ => rfl

/-- What holds of a list if it holds of the regions that its statements open holds of every list. -/
theorem ConcStmt.region_induction {motive : List ConcStmt → Prop}
    (step : ∀ statements, (∀ statement ∈ statements, ∀ region ∈ statement.kind.regions,
      motive region.2) → motive statements) (statements : List ConcStmt) : motive statements := by
  induction statements using ConcStmt.list_induction with
  | step statements ih =>
    refine step statements fun statement hs region hr => ?_
    have hb := ConcKind.mem_bodies hr
    rw [← ConcKind.map_parts] at hb
    obtain ⟨part, hp, he⟩ := List.mem_map.mp hb
    exact he ▸ ih statement hs part hp

theorem ConcStmt.sizeOf_region {statements : List ConcStmt} {statement : ConcStmt}
    (hs : statement ∈ statements) {region : List Decl × List ConcStmt}
    (hr : region ∈ statement.kind.regions) : sizeOf region.2 < sizeOf statements := by
  have hb := ConcKind.mem_bodies hr
  rw [← ConcKind.map_parts] at hb
  obtain ⟨part, hp, he⟩ := List.mem_map.mp hb
  exact he ▸ ConcStmt.sizeOf_part hs hp

section Places

def ConcStmt.place? (statement : ConcStmt) (position : Nat) : Option Place :=
  statement.instance?.map fun _ => ⟨[], statement.key, position⟩

/-- The places of the instances, in the order in which they are found. -/
def ConcStmt.places (statements : List ConcStmt) : List Place :=
  statements.zipIdx.attach.flatMap fun entry => (entry.1.1.place? entry.1.2).toList ++
    entry.1.1.kind.regions.zipIdx.attach.flatMap fun inner =>
      (ConcStmt.places inner.1.1.2).map (.inside (entry.1.1.kind.step entry.1.1.key inner.1.2))
termination_by sizeOf statements
decreasing_by
  exact ConcStmt.sizeOf_region (List.fst_mem_of_mem_zipIdx entry.2)
    (List.fst_mem_of_mem_zipIdx inner.2)

def ConcStmt.placesIn (statement : ConcStmt) (inner : (List Decl × List ConcStmt) × Nat) :
    List Place :=
  (ConcStmt.places inner.1.2).map (.inside (statement.kind.step statement.key inner.2))

def ConcStmt.placesAt (statement : ConcStmt) (position : Nat) : List Place :=
  (statement.place? position).toList ++ statement.kind.regions.zipIdx.flatMap statement.placesIn

theorem flatMap_attach {α β : Type} (f : α → List β) (items : List α) :
    (items.attach.flatMap fun item => f item.1) = items.flatMap f :=
  congrArg List.flatten (List.attach_map_val (f := f))

theorem ConcStmt.places_eq (statements : List ConcStmt) :
    ConcStmt.places statements =
      statements.zipIdx.flatMap fun entry => entry.1.placesAt entry.2 := by
  rw [ConcStmt.places, ← flatMap_attach (fun entry => entry.1.placesAt entry.2) statements.zipIdx]
  congr 1
  funext entry
  exact congrArg (_ ++ ·) (flatMap_attach entry.1.1.placesIn _)

theorem ConcStmt.mem_places_iff {statements : List ConcStmt} {place : Place} :
    place ∈ ConcStmt.places statements ↔ ∃ (position : Nat) (statement : ConcStmt),
      statements[position]? = some statement ∧ place ∈ statement.placesAt position := by
  rw [ConcStmt.places_eq, List.mem_flatMap]
  constructor
  · rintro ⟨⟨statement, position⟩, hm, hp⟩
    exact ⟨position, statement, List.mem_zipIdx_iff_getElem?.mp hm, hp⟩
  · rintro ⟨position, statement, hs, hp⟩
    exact ⟨(statement, position), List.mem_zipIdx_iff_getElem?.mpr hs, hp⟩

theorem ConcStmt.mem_placesAt_iff {statement : ConcStmt} {position : Nat} {place : Place} :
    place ∈ statement.placesAt position ↔
      statement.instance?.isSome = true ∧ place = ⟨[], statement.key, position⟩ ∨
      ∃ index region, statement.kind.regions[index]? = some region ∧
        ∃ inner ∈ ConcStmt.places region.2,
          place = inner.inside (statement.kind.step statement.key index) := by
  rw [ConcStmt.placesAt, List.mem_append, List.mem_flatMap, Option.mem_toList, ConcStmt.place?]
  refine or_congr ?_ ?_
  · cases statement.instance? <;> simp [eq_comm]
  · simp only [ConcStmt.placesIn, List.mem_map, List.mem_zipIdx_iff_getElem?]
    constructor
    · rintro ⟨⟨region, index⟩, hr, inner, hi, rfl⟩
      exact ⟨index, region, hr, inner, hi, rfl⟩
    · rintro ⟨index, region, hr, inner, hi, rfl⟩
      exact ⟨(region, index), hr, inner, hi, rfl⟩

@[simp] theorem ConcKind.label_step (kind : ConcKind) (label : String) (index : Nat) :
    (kind.step label index).label = label := by
  cases kind <;> rfl

theorem ConcStmt.requiresLabel_of_isSome {statement : ConcStmt}
    (h : statement.instance?.isSome = true) : statement.kind.requiresLabel = true := by
  obtain ⟨label, kind⟩ := statement
  cases kind with
  | instantiation => rfl
  | _ => cases h

theorem ConcStmt.first_of_mem_placesAt {statement : ConcStmt} {position : Nat} {place : Place}
    (h : place ∈ statement.placesAt position) :
    statement.kind.requiresLabel = true ∧ place.first = statement.key := by
  rcases ConcStmt.mem_placesAt_iff.mp h with ⟨hi, rfl⟩ | ⟨index, region, hr, inner, _, rfl⟩
  · exact ⟨ConcStmt.requiresLabel_of_isSome hi, rfl⟩
  · exact ⟨ConcKind.requiresLabel_of_mem (List.mem_of_getElem? hr), ConcKind.label_step ..⟩

theorem ConcStmt.mem_places_nil_iff {statements : List ConcStmt} {label : String} {position : Nat} :
    ⟨[], label, position⟩ ∈ ConcStmt.places statements ↔ ∃ statement : ConcStmt,
      statements[position]? = some statement ∧ statement.instance?.isSome = true ∧
        statement.key = label := by
  rw [ConcStmt.mem_places_iff]
  simp only [ConcStmt.mem_placesAt_iff, Place.mk.injEq, true_and]
  constructor
  · rintro ⟨position, statement, hs, ⟨hi, rfl, rfl⟩ | ⟨_, _, _, inner, _, hp⟩⟩
    · exact ⟨statement, hs, hi, rfl⟩
    · cases congrArg Place.path hp
  · rintro ⟨statement, hs, hi, rfl⟩
    exact ⟨position, statement, hs, .inl ⟨hi, rfl, rfl⟩⟩

theorem ConcStmt.mem_places_cons_iff {statements : List ConcStmt} {step : Step} {path : List Step}
    {label : String} {position : Nat} :
    ⟨step :: path, label, position⟩ ∈ ConcStmt.places statements ↔ ∃ statement ∈ statements,
      ∃ index region, statement.kind.regions[index]? = some region ∧
        statement.kind.step statement.key index = step ∧
        ⟨path, label, position⟩ ∈ ConcStmt.places region.2 := by
  rw [ConcStmt.mem_places_iff]
  simp only [ConcStmt.mem_placesAt_iff, Place.mk.injEq, reduceCtorEq, false_and, and_false,
    false_or]
  constructor
  · rintro ⟨_, statement, hs, index, region, hr, inner, hi, hp⟩
    obtain ⟨⟨rfl, rfl⟩, rfl, rfl⟩ : (step = _ ∧ path = inner.path) ∧ _ ∧ _ := by
      simpa [Place.inside] using hp
    exact ⟨statement, List.mem_of_getElem? hs, index, region, hr, rfl, hi⟩
  · rintro ⟨statement, hs, index, region, hr, rfl, hi⟩
    obtain ⟨place, hs⟩ := List.mem_iff_getElem?.mp hs
    exact ⟨place, statement, hs, index, region, hr, _, hi, rfl⟩

theorem ConcStmt.key_eq {statement : ConcStmt} (h : statement.label.isSome = true) :
    statement.label.map Identifier.normalized = some statement.key := by
  obtain ⟨label, hl⟩ := Option.isSome_iff_exists.mp h
  simp [ConcStmt.key, hl]

end Places

section Nodup

theorem ConcKind.step_inj {kind : ConcKind} {label : String} {i j : Nat}
    (hi : i < kind.regions.length) (hj : j < kind.regions.length)
    (h : kind.step label i = kind.step label j) : i = j := by
  cases kind with
  | block =>
    simp only [regions, List.length_singleton] at hi hj
    omega
  | _ => exact (Step.alternative.inj h).2

theorem ConcStmt.nodup_placesAt {statement : ConcStmt} (position : Nat)
    (h : ∀ region ∈ statement.kind.regions, (ConcStmt.places region.2).Nodup) :
    (statement.placesAt position).Nodup := by
  rw [ConcStmt.placesAt, List.nodup_append']
  refine ⟨?_, List.nodup_flatMap.mpr ⟨fun inner hm => ?_, ?_⟩, fun place ho hi => ?_⟩
  · cases statement.place? position <;> simp
  · exact (h _ (List.fst_mem_of_mem_zipIdx hm)).map (Place.inside_injective _)
  · -- Places in two regions of the statement differ in their first step.
    refine (List.pairwise_map.mp (List.nodup_zipIdx_map_snd _)).imp_of_mem ?_
    intro a b ha hb hne place hpa hpb
    obtain ⟨p, _, rfl⟩ := List.mem_map.mp hpa
    obtain ⟨q, _, hq⟩ := List.mem_map.mp hpb
    have hs := (List.cons.inj (congrArg Place.path hq)).1
    exact hne (ConcKind.step_inj (List.snd_lt_of_mem_zipIdx ha) (List.snd_lt_of_mem_zipIdx hb)
      hs.symm)
  · obtain ⟨inner, _, hi⟩ := List.mem_flatMap.mp hi
    obtain ⟨p, _, rfl⟩ := List.mem_map.mp hi
    obtain ⟨_, _, hp⟩ := Option.map_eq_some_iff.mp (Option.mem_toList.mp ho)
    cases congrArg Place.path hp

theorem ConcStmt.nodup_places {statements : List ConcStmt} (h : ConcStmt.WellLabelled statements) :
    (ConcStmt.places statements).Nodup := by
  induction statements using ConcStmt.region_induction with
  | step statements ih =>
    obtain ⟨hl, hd, hb⟩ := h
    rw [ConcStmt.places_eq, List.nodup_flatMap]
    refine ⟨fun entry hm => ?_, ?_⟩
    · have hs := List.fst_mem_of_mem_zipIdx hm
      exact ConcStmt.nodup_placesAt _ fun region hr =>
        ih _ hs region hr (hb _ hs _ (ConcKind.mem_bodies hr))
    · -- Places at two statements of the list differ in their first label.
      rw [← List.zipIdx_map_fst 0 statements] at hd
      refine (List.pairwise_map.mp hd).imp_of_mem fun {a b} ha hb hne place hpa hpb => ?_
      obtain ⟨hra, hka⟩ := ConcStmt.first_of_mem_placesAt hpa
      obtain ⟨hrb, hkb⟩ := ConcStmt.first_of_mem_placesAt hpb
      refine hne hra hrb ?_
      rw [ConcStmt.key_eq (hl _ (List.fst_mem_of_mem_zipIdx ha) hra),
        ConcStmt.key_eq (hl _ (List.fst_mem_of_mem_zipIdx hb) hrb), ← hka, ← hkb]

end Nodup

section Records

variable {statements : List ConcStmt} {decls : List Decl}

theorem ConcStmt.labelled?_eq_some_iff {statement : ConcStmt} {label : String} {position : Nat}
    {found : Labelled} : statement.labelled? label position = some found ↔
      statement.label.map Identifier.normalized = some label ∧
        statement.kind.labelled? position = some found := by
  rw [labelled?, Option.ite_none_right_eq_some]

theorem ConcKind.requiresLabel_of_labelled? {kind : ConcKind} {position : Nat} {found : Labelled}
    (h : kind.labelled? position = some found) : kind.requiresLabel = true := by
  cases kind with
  | process | assert | assign | call => cases h
  | _ => rfl

theorem ConcStmt.WellLabelled.eq_of_labelled? (h : ConcStmt.WellLabelled statements)
    {label : String} {i j : Nat} {a b : ConcStmt} {x y : Labelled} (ha : statements[i]? = some a)
    (hb : statements[j]? = some b) (hx : a.labelled? label i = some x)
    (hy : b.labelled? label j = some y) : i = j := by
  obtain ⟨_, hd, _⟩ := h
  obtain ⟨hla, hka⟩ := ConcStmt.labelled?_eq_some_iff.mp hx
  obtain ⟨hlb, hkb⟩ := ConcStmt.labelled?_eq_some_iff.mp hy
  obtain ⟨hi, rfl⟩ := List.getElem?_eq_some_iff.mp ha
  obtain ⟨hj, rfl⟩ := List.getElem?_eq_some_iff.mp hb
  rw [List.pairwise_iff_getElem] at hd
  have hra := ConcKind.requiresLabel_of_labelled? hka
  have hrb := ConcKind.requiresLabel_of_labelled? hkb
  rcases Nat.lt_trichotomy i j with hlt | heq | hlt
  · exact absurd (hla.trans hlb.symm) (hd i j hi hj hlt hra hrb)
  · exact heq
  · exact absurd (hlb.trans hla.symm) (hd j i hj hi hlt hrb hra)

theorem ConcStmt.WellLabelled.mem_labelled_iff (h : ConcStmt.WellLabelled statements)
    {label : String} {found : Labelled} : found ∈ (Region.of decls statements).labelled label ↔
      ∃ (position : Nat) (statement : ConcStmt), statements[position]? = some statement ∧
        statement.labelled? label position = some found := by
  rw [Region.of, ConcStmt.labelled_enterAll, if_pos (Region.labelled_ofDecls decls label),
    Option.mem_toList, ConcStmt.firstLabelled?]
  constructor
  · intro hf
    obtain ⟨⟨statement, position⟩, hm, hs⟩ := List.exists_of_findSome?_eq_some hf
    exact ⟨position, statement, List.mem_zipIdx_iff_getElem?.mp hm, hs⟩
  · rintro ⟨position, statement, hm, hs⟩
    have hsome : (statements.zipIdx.findSome? fun entry =>
        entry.1.labelled? label entry.2).isSome := by
      refine List.findSome?_isSome_iff.mpr
        ⟨(statement, position), List.mem_zipIdx_iff_getElem?.mpr hm, ?_⟩
      rw [hs]
      rfl
    obtain ⟨other, ho⟩ := Option.isSome_iff_exists.mp hsome
    obtain ⟨⟨statement', position'⟩, hm', hs'⟩ := List.exists_of_findSome?_eq_some ho
    have hm' := List.mem_zipIdx_iff_getElem?.mp hm'
    obtain rfl := h.eq_of_labelled? hm hm' hs hs'
    obtain rfl := Option.some.inj (hm.symm.trans hm')
    rw [ho]
    exact hs'.symm.trans hs

/-- The region that a step leads to through what a label leads to. -/
def Labelled.inner? (step : Step) : Labelled → Option Region
  | .instantiation _ => none
  | .block region =>
    match step with
    | .block _ => some region
    | .alternative _ _ => none
  | .generate alternatives =>
    match step with
    | .block _ => none
    | .alternative _ index => alternatives[index]?

theorem Region.step?_eq_some_iff {region inner : Region} {step : Step} :
    region.step? step = some inner ↔
      ∃ found ∈ region.labelled step.label, found.inner? step = some inner := by
  cases step with
  | block label => simp [step?, labelled, Labelled.inner?, Step.label, or_and_right, exists_or]
  | alternative label index =>
    simp [step?, labelled, Labelled.inner?, Step.label, or_and_right, exists_or,
      Option.bind_eq_some_iff]

theorem Labelled.inner?_generate_iff {alternatives : List GenerateBody} {step : Step}
    {inner : Region} :
    (generate (alternatives.map fun body => .of body.decls body.statements)).inner? step =
      some inner ↔ ∃ (index : Nat) (region : List Decl × List ConcStmt),
        (alternatives.map fun body => (body.decls, body.statements))[index]? = some region ∧
        .alternative step.label index = step ∧ Region.of region.1 region.2 = inner := by
  cases step with
  | block => simp [inner?]
  | alternative label index => simp [inner?, Step.label, Option.map_eq_some_iff]

theorem ConcKind.exists_inner?_iff {kind : ConcKind} {position : Nat} {step : Step}
    {inner : Region} : (∃ found, kind.labelled? position = some found ∧
      found.inner? step = some inner) ↔ ∃ index region, kind.regions[index]? = some region ∧
        kind.step step.label index = step ∧ Region.of region.1 region.2 = inner := by
  cases kind with
  | block decls body =>
    cases step with
    | alternative => simp [labelled?, Labelled.inner?, ConcKind.step]
    | block label =>
      simp only [labelled?, Option.some.injEq, exists_eq_left', Labelled.inner?, regions,
        List.getElem?_singleton, Option.ite_none_right_eq_some, ConcKind.step, Step.label]
      constructor
      · exact fun hr => ⟨0, _, ⟨rfl, rfl⟩, trivial, hr⟩
      · rintro ⟨_, _, ⟨_, rfl⟩, _, hr⟩
        exact hr
  | forGenerate | ifGenerate | caseGenerate =>
    simp only [labelled?, Option.some.injEq, exists_eq_left', Labelled.inner?_generate_iff]
    rfl
  | process | assert | assign | call | instantiation =>
    simp [labelled?, Labelled.inner?, regions, alternatives]

theorem ConcStmt.WellLabelled.step?_eq_some_iff (h : ConcStmt.WellLabelled statements)
    {step : Step} {inner : Region} : (Region.of decls statements).step? step = some inner ↔
      ∃ statement ∈ statements, statement.label.map Identifier.normalized = some step.label ∧
        ∃ index region, statement.kind.regions[index]? = some region ∧
          statement.kind.step step.label index = step ∧ Region.of region.1 region.2 = inner := by
  rw [Region.step?_eq_some_iff]
  simp only [h.mem_labelled_iff, ConcStmt.labelled?_eq_some_iff]
  constructor
  · rintro ⟨found, ⟨position, statement, hs, hl, hf⟩, hi⟩
    exact ⟨statement, List.mem_of_getElem? hs, hl, ConcKind.exists_inner?_iff.mp ⟨found, hf, hi⟩⟩
  · rintro ⟨statement, hs, hl, hr⟩
    obtain ⟨position, hs⟩ := List.mem_iff_getElem?.mp hs
    obtain ⟨found, hf, hi⟩ : ∃ found, statement.kind.labelled? position = some found ∧
      found.inner? step = some inner := ConcKind.exists_inner?_iff.mpr hr
    exact ⟨found, ⟨position, statement, hs, hl, hf⟩, hi⟩

theorem ConcStmt.WellLabelled.instance?_eq_some_iff (h : ConcStmt.WellLabelled statements)
    {label : String} {position : Nat} :
    (Region.of decls statements).instance? label = some position ↔
      ∃ statement, statements[position]? = some statement ∧ statement.instance?.isSome = true ∧
        statement.label.map Identifier.normalized = some label := by
  have hi : (Region.of decls statements).instance? label = some position ↔
      .instantiation position ∈ (Region.of decls statements).labelled label := by
    simp [Region.labelled]
  rw [hi, h.mem_labelled_iff]
  simp only [ConcStmt.labelled?_eq_some_iff]
  constructor
  · rintro ⟨place, ⟨label, kind⟩, hs, hl, hf⟩
    cases kind with
    | instantiation => cases hf; exact ⟨_, hs, rfl, hl⟩
    | _ => cases hf
  · rintro ⟨⟨label, kind⟩, hs, hi, hl⟩
    cases kind with
    | instantiation => exact ⟨position, _, hs, hl, rfl⟩
    | _ => cases hi

/-- The region records an instance exactly at the places. -/
theorem ConcStmt.WellLabelled.records_iff (h : ConcStmt.WellLabelled statements) {place : Place} :
    (Region.of decls statements).Records place ↔ place ∈ ConcStmt.places statements := by
  induction statements using ConcStmt.region_induction generalizing decls place with
  | step statements ih =>
    obtain ⟨hl, _, hb⟩ := id h
    have hkey {statement : ConcStmt} (hs : statement ∈ statements)
        (hr : statement.kind.requiresLabel = true) (label : String) :
        statement.label.map Identifier.normalized = some label ↔ statement.key = label := by
      rw [ConcStmt.key_eq (hl _ hs hr), Option.some_inj]
    obtain ⟨path, label, position⟩ := place
    cases path with
    | nil =>
      rw [Region.Records, Region.at?, Option.bind_some, h.instance?_eq_some_iff,
        ConcStmt.mem_places_nil_iff]
      refine exists_congr fun statement => and_congr_right fun hs => and_congr_right fun hi => ?_
      exact hkey (List.mem_of_getElem? hs) (ConcStmt.requiresLabel_of_isSome hi) label
    | cons step path =>
      have hr : (Region.of decls statements).Records ⟨step :: path, label, position⟩ ↔
          ∃ inner, (Region.of decls statements).step? step = some inner ∧
            inner.Records ⟨path, label, position⟩ := by
        simp only [Region.Records, Region.at?, Option.bind_assoc, Option.bind_eq_some_iff]
      rw [hr, ConcStmt.mem_places_cons_iff]
      simp only [h.step?_eq_some_iff]
      constructor
      · rintro ⟨_, ⟨statement, hs, hn, index, region, hg, he, rfl⟩, hi⟩
        have hm := List.mem_of_getElem? hg
        have hk := (hkey hs (ConcKind.requiresLabel_of_mem hm) _).mp hn
        refine ⟨statement, hs, index, region, hg, hk ▸ he, ?_⟩
        exact (ih _ hs _ hm (hb _ hs _ (ConcKind.mem_bodies hm))).mp hi
      · rintro ⟨statement, hs, index, region, hg, rfl, hi⟩
        have hm := List.mem_of_getElem? hg
        rw [ConcKind.label_step]
        refine ⟨_, ⟨statement, hs, ?_, index, region, hg, rfl, rfl⟩, ?_⟩
        · exact (hkey hs (ConcKind.requiresLabel_of_mem hm) _).mpr rfl
        · exact (ih _ hs _ hm (hb _ hs _ (ConcKind.mem_bodies hm))).mpr hi

end Records

section Found

/-- The instance that is found, below the labels `outer`, is the statement at the place: its scope
are the labels on the path, and the path leads to the list in which it has its position. -/
structure FoundAt (outer : List Identifier) (statements : List ConcStmt) (found : FoundInstance)
    (place : Place) : Prop where
  scope : found.scope.map Identifier.normalized =
    outer.map Identifier.normalized ++ place.path.map Step.label
  label : found.label.map Identifier.normalized = some place.label
  statement : ∃ inner, ConcStmt.Leads statements place.path inner ∧
    inner[place.position]? = some found.concurrent

variable {outer : List Identifier} {statements : List ConcStmt}

theorem forall₂_flatMap {α β γ : Type} {R : β → γ → Prop} {items : List α} {f : α → List β}
    {g : α → List γ} (h : ∀ item ∈ items, List.Forall₂ R (f item) (g item)) :
    List.Forall₂ R (items.flatMap f) (items.flatMap g) := by
  induction items with
  | nil => exact .nil
  | cons item rest ih =>
    rw [List.forall_mem_cons] at h
    rw [List.flatMap_cons, List.flatMap_cons]
    exact List.rel_append h.1 (ih h.2)

theorem FoundAt.inside {statement : ConcStmt} {index : Nat} {region : List Decl × List ConcStmt}
    {found : FoundInstance} {place : Place} (hs : statement ∈ statements)
    (hr : statement.kind.regions[index]? = some region) (hl : statement.label.isSome = true)
    (h : FoundAt (outer ++ statement.label.toList) region.2 found place) :
    FoundAt outer statements found (place.inside (statement.kind.step statement.key index)) := by
  obtain ⟨label, hlabel⟩ := Option.isSome_iff_exists.mp hl
  have hk := ConcStmt.key_eq hl
  obtain ⟨inner, hi, hp⟩ := h.statement
  refine ⟨?_, h.label, inner, .inside hs hk hr hi, hp⟩
  rw [h.scope]
  simp [hlabel, Place.inside, ConcStmt.key]

theorem ConcStmt.forall₂_placesAt {statement : ConcStmt} {position : Nat}
    (hs : statements[position]? = some statement)
    (hl : statement.kind.requiresLabel = true → statement.label.isSome = true)
    (h : ∀ region ∈ statement.kind.regions, List.Forall₂
      (FoundAt (outer ++ statement.label.toList) region.2)
      (ConcStmt.instancesAll (outer ++ statement.label.toList) region.2)
      (ConcStmt.places region.2)) :
    List.Forall₂ (FoundAt outer statements) (statement.instances outer)
      (statement.placesAt position) := by
  have hregions : statement.kind.parts.flatMap
      (ConcStmt.instancesAll (outer ++ statement.label.toList) ·.2) =
        statement.kind.regions.zipIdx.flatMap
          (ConcStmt.instancesAll (outer ++ statement.label.toList) ·.1.2) := by
    rw [← List.flatMap_map Prod.snd, ConcKind.map_parts, ← ConcKind.map_regions, List.flatMap_map]
    conv_lhs => rw [← List.zipIdx_map_fst 0 statement.kind.regions, List.flatMap_map]
  rw [ConcStmt.instances_eq, ConcStmt.placesAt, hregions]
  refine List.rel_append ?_ (forall₂_flatMap fun inner hm => ?_)
  · rw [ConcStmt.found?, ConcStmt.place?]
    cases hi : statement.instance? with
    | none => exact .nil
    | some entry =>
      have hk := ConcStmt.key_eq (hl (ConcStmt.requiresLabel_of_isSome (by rw [hi]; rfl)))
      obtain ⟨label, instantiation⟩ := entry
      obtain rfl := ConcStmt.instance?_eq_some_iff.mp hi
      exact .cons ⟨by simp, hk, statements, .here, hs⟩ .nil
  · have hr := List.mem_of_getElem? (List.mem_zipIdx_iff_getElem?.mp hm)
    refine List.forall₂_map_right_iff.mpr ((h _ hr).imp fun found place hf => ?_)
    exact hf.inside (List.mem_of_getElem? hs) (List.mem_zipIdx_iff_getElem?.mp hm)
      (hl (ConcKind.requiresLabel_of_mem hr))

theorem ConcStmt.WellLabelled.forall₂_places (h : ConcStmt.WellLabelled statements) :
    List.Forall₂ (FoundAt outer statements) (ConcStmt.instancesAll outer statements)
      (ConcStmt.places statements) := by
  induction statements using ConcStmt.region_induction generalizing outer with
  | step statements ih =>
    obtain ⟨hl, _, hb⟩ := h
    have hi : ConcStmt.instancesAll outer statements =
        statements.zipIdx.flatMap (ConcStmt.instances outer ·.1) := by
      rw [ConcStmt.instancesAll_eq_flatMap]
      conv_lhs => rw [← List.zipIdx_map_fst 0 statements, List.flatMap_map]
    rw [hi, ConcStmt.places_eq]
    refine forall₂_flatMap fun entry hm => ?_
    have hs := List.mem_zipIdx_iff_getElem?.mp hm
    have hmem := List.mem_of_getElem? hs
    refine ConcStmt.forall₂_placesAt hs (hl _ hmem) fun region hr => ?_
    exact ih _ hmem region hr (hb _ hmem _ (ConcKind.mem_bodies hr))

end Found

/-- If the statements are well labelled, the instances that are found and those that the region
records correspond one to one: the places of the region form a list without repetition, in which
each place belongs to the instance found in its turn. -/
theorem recorded_instances_exact (decls : List Decl) {statements : List ConcStmt}
    (h : ConcStmt.WellLabelled statements) : ∃ places : List Place, places.Nodup ∧
      (∀ place, place ∈ places ↔ (Region.of decls statements).Records place) ∧
      List.Forall₂ (FoundAt [] statements) (findInstances statements) places :=
  ⟨ConcStmt.places statements, ConcStmt.nodup_places h, fun _ => h.records_iff.symm,
    h.forall₂_places⟩

/-- Instances with one label in both alternatives of a generate statement and in a block. -/
def vineyard : List ConcStmt :=
  [.mk (some ⟨"Row", by decide +kernel⟩) (.ifGenerate
      [.mk (.literal .null) (.mk none none [vine])] (some (.mk none none [vine]))),
    .mk (some ⟨"shed", by decide +kernel⟩) (.block [] [vine])]
where
  vine : ConcStmt := .mk (some ⟨"Vine", by decide +kernel⟩)
    (.instantiation { unit := .component (.simple ⟨"grape", by decide +kernel⟩) })

theorem wellLabelled_vineyard : ConcStmt.WellLabelled vineyard := by
  have ht : ConcStmt.WellLabelled [vineyard.vine] :=
    ⟨by decide +kernel, List.pairwise_singleton ..,
      by simp [vineyard.vine, ConcStmt.kind, ConcKind.bodies]⟩
  have hb : ∀ statement ∈ vineyard, ∀ body ∈ statement.kind.bodies, body = [vineyard.vine] := by
    simp [vineyard, ConcStmt.kind, ConcKind.bodies, IfBranch.statements, GenerateBody.statements]
  exact ⟨by decide +kernel, by decide +kernel, fun statement hs body hm => hb _ hs _ hm ▸ ht⟩

theorem vineyard_recorded : ConcStmt.WellLabelled vineyard ∧ (findInstances vineyard).length = 3 ∧
    ∃ places : List Place, places.Nodup ∧
      (∀ place, place ∈ places ↔ (Region.of [] vineyard).Records place) ∧
      List.Forall₂ (FoundAt [] vineyard) (findInstances vineyard) places :=
  ⟨wellLabelled_vineyard, rfl, recorded_instances_exact [] wellLabelled_vineyard⟩

end Vhdl
