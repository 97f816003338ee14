import Mathlib.Data.String.Basic
import Vhdl.Proofs.Instances
import Vhdl.Proofs.Table
import Vhdl.Region

/-! # What a region holds

The declarations of a region enter their names one by one, so that a name leads to all declarations
of it in their order. The statements enter their labels into three tables, but only where none of
them has the label yet. A label is therefore in at most one table, with what the first statement
under it gives.
-/

namespace Vhdl

/-- A subprogram is named by its identifier, or by the symbol of its operator in quotes. -/
inductive Designator.Names : Designator → String → Prop
  | ident (ident : Identifier) : Names (.ident ident) ident.normalized
  | symbol (operator : Operator) : Names (.symbol operator) ("\"" ++ operator.symbol ++ "\"")

theorem Designator.names_iff {designator : Designator} {name : String} :
    designator.Names name ↔ designator.normalized = name := by
  constructor
  · rintro (ident | operator) <;> rfl
  · rintro rfl
    cases designator with
    | ident ident => exact .ident ident
    | symbol operator => exact .symbol operator

/-- The declaration introduces the name for something of the kind. -/
inductive Decl.Introduces : Decl → String → DeclarationKind → Prop
  | constant {object : ObjectDecl} {ident : Identifier} : object.kind = .constant →
      ident ∈ object.idents → Introduces (.object object) ident.normalized .constant
  | signal {object : ObjectDecl} {ident : Identifier} : object.kind = .signal →
      ident ∈ object.idents → Introduces (.object object) ident.normalized .signal
  | ownVariable {object : ObjectDecl} {ident : Identifier} : object.kind = .variable →
      object.shared = false → ident ∈ object.idents →
      Introduces (.object object) ident.normalized .variable
  | sharedVariable {object : ObjectDecl} {ident : Identifier} : object.kind = .variable →
      object.shared = true → ident ∈ object.idents →
      Introduces (.object object) ident.normalized .sharedVariable
  | file {object : ObjectDecl} {ident : Identifier} : object.kind = .file →
      ident ∈ object.idents → Introduces (.object object) ident.normalized .file
  | type {ident : Identifier} {definition : TypeDef} {doc : Option String} :
      (∀ indication, definition ≠ .subtype indication) →
      Introduces (.type ident definition doc) ident.normalized .type
  | subtype {ident : Identifier} {indication : SubtypeIndication} {doc : Option String} :
      Introduces (.type ident (.subtype indication) doc) ident.normalized .subtype
  | component {ident : Identifier} {generics ports : List Interface} {doc : Option String} :
      Introduces (.component ident generics ports doc) ident.normalized .component
  | attribute {ident : Identifier} {mark : TypeMark} :
      Introduces (.attribute ident mark) ident.normalized .attribute
  | alias {ident : Identifier} {indication : Option SubtypeIndication} {name : Name} :
      Introduces (.alias ident indication name) ident.normalized .alias
  | procedure {designator : Designator} {name : String} {parameters : List Interface}
      {doc : Option String} : designator.Names name →
      Introduces (.subprogram (.procedure designator parameters) doc) name .procedure
  | function {isPure : Bool} {designator : Designator} {name : String}
      {parameters : List Interface} {returns : TypeMark} {doc : Option String} :
      designator.Names name →
      Introduces (.subprogram (.function isPure designator parameters returns) doc) name .function
  | procedureBody {designator : Designator} {name : String} {parameters : List Interface}
      {decls : List Decl} {body : List SeqStmt} {doc : Option String} : designator.Names name →
      Introduces (.subprogramBody (.procedure designator parameters) decls body doc) name
        .procedure
  | functionBody {isPure : Bool} {designator : Designator} {name : String}
      {parameters : List Interface} {returns : TypeMark} {decls : List Decl} {body : List SeqStmt}
      {doc : Option String} : designator.Names name →
      Introduces (.subprogramBody (.function isPure designator parameters returns) decls body doc)
        name .function
  | packageInstance {ident : Identifier} {name : Name} {genericMap : Option (List Assoc)} :
      Introduces (.packageInstance ident name genericMap) ident.normalized .packageInstance

/-- The names are those that the declaration introduces. An object declaration introduces one for
each of its identifiers, in their order, and any other declaration at most one. -/
structure Decl.DeclaredExact (decl : Decl) : Prop where
  mem_iff : ∀ name kind, (name, kind) ∈ decl.declared ↔ decl.Introduces name kind
  object : ∀ object, decl = .object object →
    decl.declared.map Prod.fst = object.idents.map Identifier.normalized
  other : (∀ object, decl ≠ .object object) → decl.declared.length ≤ 1

namespace Decl

theorem introduces_object_iff {object : ObjectDecl} {name : String} {kind : DeclarationKind} :
    (Decl.object object).Introduces name kind ↔
      kind = .ofObject object ∧ ∃ ident ∈ object.idents, ident.normalized = name := by
  constructor
  · intro h
    cases h with
    | constant hk hm => exact ⟨by simp [DeclarationKind.ofObject, hk], _, hm, rfl⟩
    | signal hk hm => exact ⟨by simp [DeclarationKind.ofObject, hk], _, hm, rfl⟩
    | ownVariable hk hs hm => exact ⟨by simp [DeclarationKind.ofObject, hk, hs], _, hm, rfl⟩
    | sharedVariable hk hs hm => exact ⟨by simp [DeclarationKind.ofObject, hk, hs], _, hm, rfl⟩
    | file hk hm => exact ⟨by simp [DeclarationKind.ofObject, hk], _, hm, rfl⟩
  · rintro ⟨rfl, ident, hm, rfl⟩
    unfold DeclarationKind.ofObject
    split
    · next hk => exact .constant hk hm
    · next hk => exact .signal hk hm
    · next hk =>
      split
      · next hs => exact .sharedVariable hk hs hm
      · next hs => exact .ownVariable hk (by simpa using hs) hm
    · next hk => exact .file hk hm

theorem introduces_of_mem {decl : Decl} {name : String} {kind : DeclarationKind}
    (h : (name, kind) ∈ decl.declared) : decl.Introduces name kind := by
  unfold declared at h
  split at h
  · next object =>
    obtain ⟨ident, hm, he⟩ := List.mem_map.mp h
    obtain ⟨rfl, rfl⟩ := Prod.mk.inj he
    exact introduces_object_iff.mpr ⟨rfl, ident, hm, rfl⟩
  · cases List.mem_singleton.mp h
    exact .subtype
  · next hd =>
    cases List.mem_singleton.mp h
    exact .type hd
  · cases List.mem_singleton.mp h
    exact .component
  · cases List.mem_singleton.mp h
    exact .attribute
  · cases List.mem_singleton.mp h
    exact .alias
  · next spec _ =>
    cases spec <;> cases List.mem_singleton.mp h
    · exact .procedure (Designator.names_iff.mpr rfl)
    · exact .function (Designator.names_iff.mpr rfl)
  · next spec _ _ _ =>
    cases spec <;> cases List.mem_singleton.mp h
    · exact .procedureBody (Designator.names_iff.mpr rfl)
    · exact .functionBody (Designator.names_iff.mpr rfl)
  · cases List.mem_singleton.mp h
    exact .packageInstance
  all_goals cases h

theorem mem_declared_of_introduces {decl : Decl} {name : String} {kind : DeclarationKind}
    (h : decl.Introduces name kind) : (name, kind) ∈ decl.declared := by
  cases decl with
  | object object =>
    obtain ⟨rfl, ident, hm, rfl⟩ := introduces_object_iff.mp h
    exact List.mem_map_of_mem hm
  | type ident definition doc =>
    cases h with
    | type hd =>
      rw [declared]
      · exact List.mem_singleton_self _
      · exact hd
    | subtype => exact List.mem_singleton_self _
  | subprogram spec doc =>
    cases h with
    | procedure hn | function hn =>
      cases Designator.names_iff.mp hn
      exact List.mem_singleton_self _
  | subprogramBody spec decls body doc =>
    cases h with
    | procedureBody hn | functionBody hn =>
      cases Designator.names_iff.mp hn
      exact List.mem_singleton_self _
  | _ => cases h <;> exact List.mem_singleton_self _

theorem declaredExact (decl : Decl) : decl.DeclaredExact := by
  refine ⟨fun _ _ => ⟨introduces_of_mem, mem_declared_of_introduces⟩, ?_, fun hn => ?_⟩
  · rintro object rfl
    exact List.map_map
  · unfold declared
    split
    · exact absurd rfl (hn _)
    all_goals simp

def items (decl : Decl) (position : Nat) : List (String × DeclaredItem) :=
  decl.declared.map fun named => (named.1, ⟨named.2, position⟩)

end Decl

def declaredItems (decls : List Decl) : List (String × DeclaredItem) :=
  decls.zipIdx.flatMap fun entry => entry.1.items entry.2

theorem exists_mem_declaredItems_iff {decls : List Decl} {name : String} {kind : DeclarationKind} :
    (∃ item, (name, item) ∈ declaredItems decls ∧ item.kind = kind) ↔
      ∃ decl ∈ decls, decl.Introduces name kind := by
  simp only [declaredItems, Decl.items, List.mem_flatMap, List.mem_map, Prod.mk.injEq]
  constructor
  · rintro ⟨_, ⟨⟨decl, position⟩, hm, ⟨_, kind⟩, hd, rfl, rfl⟩, rfl⟩
    exact ⟨decl, List.fst_mem_of_mem_zipIdx hm, Decl.introduces_of_mem hd⟩
  · rintro ⟨decl, hm, hi⟩
    obtain ⟨position, hp⟩ := List.mem_iff_getElem?.mp hm
    exact ⟨⟨kind, position⟩, ⟨(decl, position), List.mem_zipIdx_iff_getElem?.mpr hp, (name, kind),
      Decl.mem_declared_of_introduces hi, rfl, rfl⟩, rfl⟩

namespace Region

variable {region : Region} {decls : List Decl}

theorem ofDecls_eq_foldl (decls : List Decl) : ofDecls decls =
    (declaredItems decls).foldl (fun region item => region.addName item.1 item.2) empty := by
  simp only [declaredItems, Decl.items, List.foldl_flatMap, List.foldl_map]
  rfl

theorem lookup_addName (region : Region) (name other : String) (item : DeclaredItem) :
    (region.addName name item).lookup other =
      region.lookup other ++ if name = other then [item] else [] := by
  rw [lookup, addName, Table.getD_insert]
  split_ifs with h h'
  · rw [h]
  · exact absurd h.symm h'
  · next h' => exact absurd h'.symm h
  · rw [List.append_nil]
    rfl

theorem lookup_foldl_addName (items : List (String × DeclaredItem)) (region : Region)
    (name : String) :
    (items.foldl (fun region item => region.addName item.1 item.2) region).lookup name =
      region.lookup name ++ (items.filter (·.1 = name)).map Prod.snd := by
  induction items generalizing region with
  | nil => simp
  | cons item rest ih =>
    rw [List.foldl_cons, ih, lookup_addName, List.append_assoc]
    by_cases h : item.1 = name <;> simp [h]

theorem lookup_ofDecls (decls : List Decl) (name : String) :
    (ofDecls decls).lookup name = ((declaredItems decls).filter (·.1 = name)).map Prod.snd := by
  rw [ofDecls_eq_foldl, lookup_foldl_addName]
  rfl

theorem nodup_keys_foldl_addName (items : List (String × DeclaredItem)) {region : Region}
    (h : region.declarations.keys.Nodup) :
    (items.foldl (fun region item => region.addName item.1 item.2)
      region).declarations.keys.Nodup := by
  induction items generalizing region with
  | nil => exact h
  | cons item rest ih => exact ih (Table.nodup_keys_insert h _ _)

theorem mem_lookup_iff {name : String} {item : DeclaredItem} : item ∈ region.lookup name ↔
    ∃ items, region.declarations.get? name = some items ∧ item ∈ items := by
  rw [lookup, Table.getD]
  cases region.declarations.get? name <;> simp

theorem mem_namesOf_iff (h : region.declarations.keys.Nodup) {name : String}
    {kind : DeclarationKind} : name ∈ region.namesOf kind ↔
      ∃ item ∈ region.lookup name, item.kind = kind := by
  rw [namesOf, sortedTexts, (List.mergeSort_perm _ _).mem_iff]
  simp only [List.mem_map, List.mem_filter, List.any_eq_true, decide_eq_true_eq, mem_lookup_iff]
  constructor
  · rintro ⟨⟨_, items⟩, ⟨hm, item, hi, hk⟩, rfl⟩
    exact ⟨item, ⟨items, (Table.mem_entries_iff h).mp hm, hi⟩, hk⟩
  · rintro ⟨item, ⟨items, hg, hi⟩, hk⟩
    exact ⟨(name, items), ⟨(Table.mem_entries_iff h).mpr hg, item, hi, hk⟩, rfl⟩

theorem pairwise_sortedTexts {texts : List String} (h : texts.Nodup) :
    (sortedTexts texts).Pairwise (· < ·) := by
  have hle : (sortedTexts texts).Pairwise fun a b => decide (a ≤ b) = true := by
    refine List.pairwise_mergeSort (fun a b c hab hbc => ?_) (fun a b => ?_) texts
    · exact decide_eq_true (le_trans (of_decide_eq_true hab) (of_decide_eq_true hbc))
    · simpa using le_total a b
  have hne : (sortedTexts texts).Nodup := (List.mergeSort_perm _ _).nodup_iff.mpr h
  exact (hle.and hne).imp fun hab => lt_of_le_of_ne (of_decide_eq_true hab.1) hab.2

theorem pairwise_namesOf (h : region.declarations.keys.Nodup) (kind : DeclarationKind) :
    (region.namesOf kind).Pairwise (· < ·) :=
  pairwise_sortedTexts ((List.filter_sublist.map _).nodup h)

end Region

section Labels

def GenerateBody.decls : GenerateBody → List Decl
  | .mk _ decls _ => decls.getD []

def IfBranch.body : IfBranch → GenerateBody
  | .mk _ body => body

def CaseBranch.body : CaseBranch → GenerateBody
  | .mk _ body => body

def ConcKind.alternatives : ConcKind → List GenerateBody
  | .forGenerate _ _ body => [body]
  | .ifGenerate branches otherwise => branches.map IfBranch.body ++ otherwise.toList
  | .caseGenerate _ alternatives => alternatives.map CaseBranch.body
  | _ => []

/-- What a label leads to in a region. -/
inductive Labelled where
  | instantiation (position : Nat)
  | block (region : Region)
  | generate (alternatives : List Region)

/-- What the label of a statement leads to. Statements that need no label give nothing. -/
def ConcKind.labelled? (position : Nat) (kind : ConcKind) : Option Labelled :=
  match kind with
  | .instantiation _ => some (.instantiation position)
  | .block decls body => some (.block (.of decls body))
  | .forGenerate _ _ _ | .ifGenerate _ _ | .caseGenerate _ _ =>
    some (.generate (kind.alternatives.map fun body => .of body.decls body.statements))
  | .process _ _ | .assert _ | .assign _ _ | .call _ _ => none

def ConcStmt.labelled? (label : String) (position : Nat) (stmt : ConcStmt) : Option Labelled :=
  if stmt.label.map Identifier.normalized = some label then stmt.kind.labelled? position else none

/-- What the first statement under a label gives, where the first one of all stands at
`position`. -/
def ConcStmt.firstLabelled? (label : String) (position : Nat) (stmts : List ConcStmt) :
    Option Labelled :=
  (stmts.zipIdx position).findSome? fun entry => entry.1.labelled? label entry.2

def Region.labelled (region : Region) (label : String) : List Labelled :=
  ((region.instance? label).map Labelled.instantiation).toList ++
    ((region.block? label).map Labelled.block).toList ++
    ((region.generate? label).map Labelled.generate).toList

theorem GenerateBody.region_eq :
    GenerateBody.region = fun body => .of body.decls body.statements := by
  funext body
  obtain ⟨_, decls, statements⟩ := body
  rw [GenerateBody.region]
  rfl

theorem IfBranch.regions_eq (branches : List IfBranch) :
    IfBranch.regions branches = (branches.map IfBranch.body).map GenerateBody.region := by
  induction branches with
  | nil => rw [regions]; rfl
  | cons branch rest ih =>
    obtain ⟨condition, body⟩ := branch
    rw [regions, ih]
    rfl

theorem CaseBranch.regions_eq (branches : List CaseBranch) :
    CaseBranch.regions branches = (branches.map CaseBranch.body).map GenerateBody.region := by
  induction branches with
  | nil => rw [regions]; rfl
  | cons branch rest ih =>
    obtain ⟨choices, body⟩ := branch
    rw [regions, ih]
    rfl

namespace Region

variable {region : Region} {label other : String}

theorem hasLabel_iff : region.hasLabel label = true ↔ region.labelled label ≠ [] := by
  simp only [hasLabel, labelled, Table.contains, instance?, block?, generate?]
  cases region.instances.get? label <;> cases region.blocks.get? label <;>
    cases region.generates.get? label <;> simp

def enter (region : Region) (label : String) : Labelled → Region
  | .instantiation position => { region with instances := region.instances.insert label position }
  | .block inner => { region with blocks := region.blocks.insert label inner }
  | .generate alternatives =>
    { region with generates := region.generates.insert label alternatives }

theorem labelled_enter (h : region.labelled label = []) (found : Labelled) :
    (region.enter label found).labelled other =
      if other = label then [found] else region.labelled other := by
  simp only [labelled, List.append_eq_nil_iff, Option.toList_eq_nil_iff,
    Option.map_eq_none_iff] at h
  obtain ⟨⟨hi, hb⟩, hg⟩ := h
  split_ifs with he
  · subst he
    cases found <;> simp_all [labelled, enter, instance?, block?, generate?, Table.get?_insert]
  · cases found <;> simp [labelled, enter, instance?, block?, generate?, Table.get?_insert, he]

end Region

theorem ConcKind.enter_eq (kind : ConcKind) (region : Region) (label : String) (position : Nat) :
    kind.enter region label position =
      (kind.labelled? position).elim region (region.enter label) := by
  cases kind with
  | ifGenerate branches otherwise =>
    cases otherwise <;> rw [ConcKind.enter] <;>
      simp [labelled?, alternatives, Region.enter, IfBranch.regions_eq, GenerateBody.region_eq]
  | caseGenerate selector alternatives =>
    rw [ConcKind.enter]
    simp [labelled?, ConcKind.alternatives, Region.enter, CaseBranch.regions_eq,
      GenerateBody.region_eq]
  | forGenerate ident range body =>
    rw [ConcKind.enter]
    simp [labelled?, alternatives, Region.enter, GenerateBody.region_eq]
  | _ => rw [ConcKind.enter]; rfl

namespace ConcStmt

theorem labelled?_none (label : String) (position : Nat) (kind : ConcKind) :
    (ConcStmt.mk none kind).labelled? label position = none := by
  simp [labelled?, ConcStmt.label]

theorem labelled?_some (label : String) (position : Nat) (name : Identifier) (kind : ConcKind) :
    (ConcStmt.mk (some name) kind).labelled? label position =
      if name.normalized = label then kind.labelled? position else none := by
  simp [labelled?, ConcStmt.label, ConcStmt.kind]

/-- A statement adds what it gives for a label that nothing was found under. -/
theorem exists_enterAll_cons (region : Region) (position : Nat) (stmt : ConcStmt)
    (rest : List ConcStmt) : ∃ next : Region,
      enterAll region position (stmt :: rest) = enterAll next (position + 1) rest ∧
      next.declarations = region.declarations ∧
      ∀ label, next.labelled label = if region.labelled label = [] then
        (stmt.labelled? label position).toList else region.labelled label := by
  have hskip {label : String} (h : region.labelled label = [] →
      stmt.labelled? label position = none) : region.labelled label =
        if region.labelled label = [] then (stmt.labelled? label position).toList
        else region.labelled label := by
    split_ifs with he
    · rw [h he, he]
      rfl
    · rfl
  obtain ⟨_ | name, kind⟩ := stmt
  · exact ⟨region, by rw [enterAll], rfl, fun label => hskip fun _ => labelled?_none ..⟩
  by_cases hl : region.hasLabel name.normalized = true
  · refine ⟨region, by rw [enterAll, if_pos hl], rfl, fun label => hskip fun he => ?_⟩
    rw [labelled?_some, if_neg]
    rintro rfl
    exact Region.hasLabel_iff.mp hl he
  · refine ⟨_, by rw [enterAll, if_neg hl], ?_⟩
    rw [Region.hasLabel_iff, not_not] at hl
    rw [ConcKind.enter_eq]
    cases hf : kind.labelled? position with
    | none => exact ⟨rfl, fun label => hskip fun _ => by rw [labelled?_some, hf, ite_self]⟩
    | some found =>
      refine ⟨by cases found <;> rfl, fun label => ?_⟩
      rw [Option.elim_some, Region.labelled_enter hl]
      split_ifs with he hn hn
      · rw [labelled?_some, if_pos he.symm, hf]
        rfl
      · exact absurd (he ▸ hl) hn
      · rw [hn, labelled?_some, if_neg (Ne.symm he)]
        rfl
      · rfl

theorem firstLabelled?_cons (label : String) (position : Nat) (stmt : ConcStmt)
    (rest : List ConcStmt) : firstLabelled? label position (stmt :: rest) =
      (stmt.labelled? label position).or (firstLabelled? label (position + 1) rest) := by
  rw [firstLabelled?, List.zipIdx_cons, List.findSome?_cons]
  cases stmt.labelled? label position <;> rfl

theorem labelled_enterAll (stmts : List ConcStmt) (region : Region) (position : Nat)
    (label : String) : (enterAll region position stmts).labelled label =
      if region.labelled label = [] then (firstLabelled? label position stmts).toList
      else region.labelled label := by
  induction stmts generalizing region position with
  | nil =>
    rw [enterAll]
    split_ifs with he
    · exact he
    · rfl
  | cons stmt rest ih =>
    obtain ⟨next, hnext, _, hlabelled⟩ := exists_enterAll_cons region position stmt rest
    rw [hnext, ih, hlabelled, firstLabelled?_cons]
    by_cases he : region.labelled label = []
    · rw [if_pos he, if_pos he]
      cases stmt.labelled? label position <;> simp
    · rw [if_neg he, if_neg he, if_neg he]

theorem declarations_enterAll (stmts : List ConcStmt) (region : Region) (position : Nat) :
    (enterAll region position stmts).declarations = region.declarations := by
  induction stmts generalizing region position with
  | nil => rw [enterAll]
  | cons stmt rest ih =>
    obtain ⟨next, hnext, hdecls, _⟩ := exists_enterAll_cons region position stmt rest
    rw [hnext, ih, hdecls]

end ConcStmt

end Labels

namespace Region

/-- A region leads from each name to its declarations, in order, and from each label to what the
first statement under it gives. -/
structure Exact (region : Region) (decls : List Decl) (stmts : List ConcStmt) : Prop where
  declared : ∀ decl ∈ decls, decl.DeclaredExact
  lookup_eq : ∀ name, region.lookup name =
    ((declaredItems decls).filter (·.1 = name)).map Prod.snd
  mem_namesOf_iff : ∀ kind name, name ∈ region.namesOf kind ↔
    ∃ decl ∈ decls, decl.Introduces name kind
  sorted : ∀ kind, (region.namesOf kind).Pairwise (· < ·)
  labelled_eq : ∀ label, region.labelled label = (ConcStmt.firstLabelled? label 0 stmts).toList

theorem labelled_foldl_addName (items : List (String × DeclaredItem)) (region : Region)
    (label : String) :
    (items.foldl (fun region item => region.addName item.1 item.2) region).labelled label =
      region.labelled label := by
  induction items generalizing region with
  | nil => rfl
  | cons item rest ih => exact ih _

theorem labelled_ofDecls (decls : List Decl) (label : String) :
    (ofDecls decls).labelled label = [] := by
  rw [ofDecls_eq_foldl, labelled_foldl_addName]
  rfl

theorem exists_mem_lookup_ofDecls_iff {decls : List Decl} {name : String}
    {kind : DeclarationKind} : (∃ item ∈ (ofDecls decls).lookup name, item.kind = kind) ↔
      ∃ decl ∈ decls, decl.Introduces name kind := by
  rw [← exists_mem_declaredItems_iff, lookup_ofDecls]
  simp [and_assoc]

/-- Every region is exact, and so are those inside it, which are made in the same way. -/
theorem of_exact (decls : List Decl) (stmts : List ConcStmt) :
    (of decls stmts).Exact decls stmts := by
  have hdecls : (of decls stmts).declarations = (ofDecls decls).declarations :=
    ConcStmt.declarations_enterAll ..
  have hlookup : (of decls stmts).lookup = (ofDecls decls).lookup := by
    funext name
    rw [lookup, lookup, hdecls]
  have hnodup : (of decls stmts).declarations.keys.Nodup := by
    rw [hdecls, ofDecls_eq_foldl]
    exact nodup_keys_foldl_addName _ List.nodup_nil
  refine ⟨fun decl _ => decl.declaredExact, fun name => ?_, fun kind name => ?_,
    pairwise_namesOf hnodup, fun label => ?_⟩
  · rw [hlookup, lookup_ofDecls]
  · rw [mem_namesOf_iff hnodup, hlookup, exists_mem_lookup_ofDecls_iff]
  · rw [of, ConcStmt.labelled_enterAll, if_pos (labelled_ofDecls decls label)]

def tally : Identifier := ⟨"Tally", by decide +kernel⟩

/-- Two functions for an operator, and a name of a function, a procedure and a constant. -/
def overloads : List Decl :=
  let mark : TypeMark := .mk (.simple ⟨"abacus", by decide +kernel⟩) none
  let sum : Decl := .subprogram (.function true (.symbol .plus) [] mark) none
  let beads : ObjectDecl :=
    { kind := .constant, role := .plain, indication := .mk .unresolved mark none
      idents := [⟨"beads", by decide +kernel⟩, ⟨"TALLY", by decide +kernel⟩] }
  [sum, .subprogram (.function true (.ident tally) [] mark) none, sum,
    .subprogramBody (.procedure (.ident tally) []) [] [] none, .object beads]

theorem overloads_exact : (of overloads []).Exact overloads [] ∧
    (of overloads []).lookup "\"+\"" = [⟨.function, 0⟩, ⟨.function, 2⟩] ∧
    (of overloads []).lookup "tally" = [⟨.function, 1⟩, ⟨.procedure, 3⟩, ⟨.constant, 4⟩] ∧
    "\"+\"" ∈ (of overloads []).namesOf .function := by
  have h := of_exact overloads []
  refine ⟨h, by decide +kernel, by decide +kernel, ?_⟩
  exact (h.mem_namesOf_iff .function _).mpr ⟨_, List.mem_cons_self, .function (.symbol .plus)⟩

end Region

end Vhdl
