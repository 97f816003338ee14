import Vhdl.Proofs.Children
import Vhdl.Proofs.Grammar
import Vhdl.Proofs.Selection

/-! # The view of a tree

The drawing in front of a vertex is decided on the way down, from the places of the vertex and its
ancestors among their siblings. It shows what the walk lists behind the vertex: at every level the
drawing goes on downwards exactly if another entry of that depth follows before one that is less
deep. The view can therefore be drawn from the walk and the keys alone.
-/

namespace Vhdl

namespace Hierarchy

/-- Among the depths behind a line, the depth comes again before any smaller one. -/
def Resumes (depth : Nat) (later : List Nat) : Prop :=
  depth ∈ later.takeWhile fun other => depth ≤ other

instance (depth : Nat) (later : List Nat) : Decidable (Resumes depth later) :=
  inferInstanceAs (Decidable (_ ∈ _))

section Depths

variable {depth : Nat} {below later : List Nat}

theorem not_resumes_of_head (h : ∀ other ∈ later.head?, other < depth) : ¬ Resumes depth later := by
  cases later with
  | nil => exact List.not_mem_nil
  | cons other later =>
    have hlt : ¬ depth ≤ other := Nat.not_le.mpr (h other rfl)
    simp [Resumes, hlt]

theorem resumes_cons_self : Resumes depth (depth :: later) := by
  simp [Resumes]

/-- Whether a depth comes again does not depend on deeper entries in between. -/
theorem resumes_append_iff (h : ∀ other ∈ below, depth < other) :
    Resumes depth (below ++ later) ↔ Resumes depth later := by
  have hle : ∀ other ∈ below, decide (depth ≤ other) = true := fun other ho =>
    decide_eq_true (h other ho).le
  have hne : depth ∉ below := fun hm => (h depth hm).false
  rw [Resumes, List.takeWhile_append_of_pos hle, List.mem_append, or_iff_right hne]
  rfl

end Depths

def depths (entries : List (Twig × Nat)) : List Nat :=
  entries.map fun entry => entry.1.depth

end Hierarchy

open Hierarchy

namespace Twig

variable {twig : Twig} {last : Bool} {below later : List Nat}

/-- At each level the twig is marked as the last one exactly if the depth does not come again. -/
def Fits (twig : Twig) (later : List Nat) : Prop :=
  twig.lasts = (List.range twig.depth).map fun level => !decide (Resumes (level + 1) later)

theorem fits_root (later : List Nat) : Twig.root.Fits later :=
  rfl

theorem fits_child_iff : (twig.child last).Fits later ↔
    twig.Fits later ∧ last = !decide (Resumes (twig.depth + 1) later) := by
  rw [Fits, depth_child, List.range_succ, List.map_append]
  exact List.append_singleton_inj

theorem Fits.append (h : twig.Fits later) (hb : ∀ depth ∈ below, twig.depth < depth) :
    twig.Fits (below ++ later) := by
  refine h.trans (List.map_congr_left fun level hl => ?_)
  have hlt : ∀ depth ∈ below, level + 1 < depth := fun depth hd =>
    (Nat.succ_le_of_lt (List.mem_range.mp hl)).trans_lt (hb depth hd)
  simp only [resumes_append_iff hlt]

/-- The depths may come behind the tree of the twig: the twig fits them, and the first of them is no
deeper. -/
structure Before (twig : Twig) (later : List Nat) : Prop where
  fits : twig.Fits later
  first : ∀ depth ∈ later.head?, depth ≤ twig.depth

theorem Before.last_child (h : twig.Before later) : (twig.child true).Before later := by
  have hlast : ¬ Resumes (twig.depth + 1) later :=
    not_resumes_of_head fun depth hd => Nat.lt_succ_of_le (h.first depth hd)
  refine ⟨fits_child_iff.mpr ⟨h.fits, by simp [hlast]⟩, fun depth hd => ?_⟩
  rw [depth_child]
  exact (h.first depth hd).trans (Nat.le_succ _)

theorem Before.child (h : twig.Before later) (hn : below.head? = some (twig.depth + 1))
    (hb : ∀ depth ∈ below, twig.depth < depth) : (twig.child false).Before (below ++ later) := by
  obtain ⟨rest, rfl⟩ := List.head?_eq_some_iff.mp hn
  refine ⟨fits_child_iff.mpr ⟨h.fits.append hb, by simp [resumes_cons_self]⟩, fun depth hd => ?_⟩
  obtain rfl := Option.some.inj hd
  exact (depth_child twig false).ge

end Twig

namespace Hierarchy

section Drawn

variable {children : Nat → List Nat} {fresh : List Nat} {twig : Twig} {id : Nat} {rest : List Nat}
  {entries others : List (Twig × Nat)}

/-- The twigs of the entries fit the depths behind them, where `rest` comes behind the last one. -/
def Drawn (rest : List Nat) : List (Twig × Nat) → Prop
  | [] => True
  | entry :: entries => entry.1.Fits (depths entries ++ rest) ∧ Drawn rest entries

theorem drawn_append_iff :
    Drawn rest (entries ++ others) ↔ Drawn (depths others ++ rest) entries ∧ Drawn rest others := by
  induction entries with
  | nil => exact (true_and _).to_iff.symm
  | cons entry entries ih =>
    simp only [List.cons_append, Drawn, ih, depths, List.map_append, List.append_assoc, and_assoc]

theorem Drawn.fits (h : Drawn rest entries) {place : Nat} {entry : Twig × Nat}
    (he : entries[place]? = some entry) :
    entry.1.Fits (depths (entries.drop (place + 1)) ++ rest) := by
  induction entries generalizing place with
  | nil => cases he
  | cons first entries ih =>
    cases place with
    | zero =>
      obtain rfl := Option.some.inj he
      exact h.1
    | succ place => exact ih h.2 he

theorem forest_cons_cons (children : Nat → List Nat) (fresh : List Nat) (twig : Twig)
    (id next : Nat) (ids : List Nat) : forest children fresh twig (id :: next :: ids) =
      expand children fresh (twig.child false) id ++ forest children fresh twig (next :: ids) :=
  rfl

theorem head?_depths_forest (children : Nat → List Nat) (fresh : List Nat) (twig : Twig)
    (id : Nat) (ids : List Nat) :
    (depths (forest children fresh twig (id :: ids))).head? = some (twig.depth + 1) := by
  obtain ⟨last, others, hs⟩ :
      ∃ last others, siblings twig (id :: ids) = (twig.child last, id) :: others := by
    cases ids <;> exact ⟨_, _, rfl⟩
  rw [forest, hs, List.flatMap_cons, expand_eq_cons, List.cons_append, depths, List.map_cons,
    List.head?_cons, depth_child]

theorem depth_lt_of_mem_depths_forest (children : Nat → List Nat) (fresh ids : List Nat) :
    ∀ depth ∈ depths (forest children fresh twig ids), twig.depth < depth :=
  List.forall_mem_map.mpr fun _ he => depth_lt_of_mem_forest he

/-- A forest is drawn right if each of its trees is, whatever comes behind the tree. -/
theorem drawn_forest {ids : List Nat}
    (ht : ∀ twig id rest, twig.Before rest → Drawn rest (expand children fresh twig id))
    (h : twig.Before rest) : Drawn rest (forest children fresh twig ids) := by
  induction ids using siblings.induct with
  | case1 => trivial
  | case2 id =>
    rw [forest, siblings, List.flatMap_singleton]
    exact ht _ id rest h.last_child
  | case3 id next ids ih =>
    rw [forest_cons_cons, drawn_append_iff]
    refine ⟨ht _ id _ (h.child ?_ ?_), ih⟩
    · exact head?_depths_forest children fresh twig next ids
    · exact depth_lt_of_mem_depths_forest children fresh (next :: ids)

theorem drawn_expand (h : twig.Before rest) : Drawn rest (expand children fresh twig id) := by
  -- What comes behind the trees of the children differs from one to the next.
  induction fresh, twig, id using expand.induct generalizing rest with
  | case1 fresh twig id ih =>
    rw [expand_eq_cons]
    split
    · next hid =>
      exact ⟨h.fits.append (depth_lt_of_mem_depths_forest children _ _),
        drawn_forest (fun twig child rest => ih hid twig child) h⟩
    · exact ⟨h.fits, trivial⟩

theorem drawn_tree (hierarchy : Hierarchy) (root : Nat) : Drawn [] (hierarchy.tree root) :=
  drawn_expand ⟨Twig.fits_root [], fun _ hd => by cases hd⟩

end Drawn

section Columns

variable {groups : List String} {group : String}

/-- The three characters of a drawing that stand for a level, where levels count from one. -/
def columns (drawing : String) (level : Nat) : String :=
  String.ofList ((drawing.toList.drop (3 * (level - 1))).take 3)

theorem length_join (h : ∀ group ∈ groups, group.length = 3) :
    (String.join groups).length = 3 * groups.length := by
  induction groups with
  | nil => rfl
  | cons group groups ih =>
    obtain ⟨hg, hr⟩ := List.forall_mem_cons.mp h
    rw [String.join_cons, String.length_append, hg, ih hr, List.length_cons]
    omega

theorem columns_join (h : ∀ group ∈ groups, group.length = 3) {place : Nat}
    (hp : groups[place]? = some group) : columns (String.join groups) (place + 1) = group := by
  induction groups generalizing place with
  | nil => cases hp
  | cons first groups ih =>
    obtain ⟨hf, hr⟩ := List.forall_mem_cons.mp h
    have hlength : first.toList.length = 3 := String.length_toList.trans hf
    cases place with
    | zero =>
      obtain rfl := Option.some.inj hp
      rw [columns, String.join_cons, String.toList_append, Nat.add_sub_cancel, Nat.mul_zero,
        List.drop_zero, List.take_left' hlength, String.ofList_toList]
    | succ place =>
      refine Eq.trans ?_ (ih hr hp)
      rw [columns, columns, String.join_cons, String.toList_append, Nat.add_sub_cancel,
        Nat.add_sub_cancel, Nat.mul_succ, Nat.add_comm, ← List.drop_drop, List.drop_left' hlength]

end Columns

/-- The drawing in front of an entry has three characters for each level down to the depth of the
entry. At this depth it has a branch if the depth comes again behind the line, and an end if not. At
the levels above it has a bar if the level comes again, and blanks if not. -/
structure Shows (drawing : String) (depth : Nat) (later : List Nat) : Prop where
  length : drawing.length = 3 * depth
  connector : 0 < depth → columns drawing depth = if Resumes depth later then "├─ " else "└─ "
  bars : ∀ level, 1 ≤ level → level < depth →
    columns drawing level = if Resumes level later then "│  " else "   "

end Hierarchy

namespace Twig

variable {twig : Twig} {last : Bool} {later : List Nat}

theorem eq_root_or_child (twig : Twig) : twig = root ∨ ∃ upper last, twig = child upper last := by
  obtain ⟨lasts⟩ := twig
  rcases List.eq_nil_or_concat lasts with rfl | ⟨upper, last, rfl⟩
  · exact .inl rfl
  · exact .inr ⟨⟨upper⟩, last, by simp [child]⟩

def groups (upper : Twig) (last : Bool) : List String :=
  (upper.lasts.map fun mark => if mark then "   " else "│  ") ++ [if last then "└─ " else "├─ "]

theorem drawing_child (upper : Twig) (last : Bool) :
    (upper.child last).drawing = String.join (upper.groups last) := by
  simp [drawing, child, indent, groups, String.join_append]

theorem mem_groups {group : String} (h : group ∈ twig.groups last) :
    group ∈ ["   ", "│  ", "└─ ", "├─ "] := by
  rcases List.mem_append.mp h with h | h
  · obtain ⟨mark, _, rfl⟩ := List.mem_map.mp h
    cases mark <;> simp
  · obtain rfl := List.mem_singleton.mp h
    cases last <;> simp

theorem length_of_mem_groups : ∀ group ∈ twig.groups last, group.length = 3 := by
  intro group hg
  have hall : ∀ group ∈ ["   ", "│  ", "└─ ", "├─ "], group.length = 3 := by decide
  exact hall group (mem_groups hg)

theorem getElem?_groups_depth (upper : Twig) (last : Bool) :
    (upper.groups last)[upper.depth]? = some (if last then "└─ " else "├─ ") := by
  simp [groups, depth]

theorem getElem?_groups {level : Nat} {mark : Bool} (hm : twig.lasts[level]? = some mark)
    (last : Bool) : (twig.groups last)[level]? = some (if mark then "   " else "│  ") := by
  have hlt := (List.getElem?_eq_some_iff.mp hm).1
  rw [groups, List.getElem?_append_left (by rwa [List.length_map]), List.getElem?_map, hm,
    Option.map_some]

theorem Fits.getElem?_lasts (h : twig.Fits later) {level : Nat} (hl : level < twig.depth) :
    twig.lasts[level]? = some !decide (Resumes (level + 1) later) := by
  rw [h, List.getElem?_map, List.getElem?_range hl, Option.map_some]

theorem Fits.shows (h : twig.Fits later) : Shows twig.drawing twig.depth later := by
  have hmark : ∀ (depth : Nat) (stop more : String),
      (if !decide (Resumes depth later) then stop else more) =
        if Resumes depth later then more else stop := by
    intro depth stop more
    by_cases hd : Resumes depth later <;> simp [hd]
  rcases twig.eq_root_or_child with rfl | ⟨upper, last, rfl⟩
  · exact ⟨rfl, fun hd => absurd hd (Nat.lt_irrefl 0), fun _ _ hl => absurd hl (Nat.not_lt_zero _)⟩
  · obtain ⟨hu, rfl⟩ := fits_child_iff.mp h
    rw [drawing_child, depth_child]
    refine ⟨?_, fun _ => ?_, fun level hpos hlt => ?_⟩
    · rw [length_join length_of_mem_groups, groups, List.length_append, List.length_map]
      rfl
    · rw [columns_join length_of_mem_groups (upper.getElem?_groups_depth _), hmark]
    · obtain ⟨level, rfl⟩ := Nat.exists_eq_succ_of_ne_zero (Nat.ne_of_gt hpos)
      have hl := hu.getElem?_lasts (Nat.lt_of_succ_lt_succ hlt)
      rw [columns_join length_of_mem_groups (getElem?_groups hl _), hmark]

end Twig

namespace Hierarchy

/-- The view has one line for each entry of the walk. The line has the key of the entry behind a
drawing that shows which depths come again in the rest of the walk. -/
structure ViewExact (hierarchy : Hierarchy) (root : Nat) (lines : List String) : Prop where
  view : hierarchy.treeView root = String.join (lines.map (· ++ "\n"))
  length : lines.length = (hierarchy.walk root).length
  line : ∀ place depth id, (hierarchy.walk root)[place]? = some (depth, id) →
    ∃ drawing, lines[place]? = some (drawing ++ (hierarchy.graph.keyOf? id).getD "") ∧
      Shows drawing depth (((hierarchy.walk root).drop (place + 1)).map Prod.fst)

def viewLines (hierarchy : Hierarchy) (root : Nat) : List String :=
  (hierarchy.tree root).map fun entry =>
    entry.1.drawing ++ (hierarchy.graph.keyOf? entry.2).getD ""

theorem viewExact (hierarchy : Hierarchy) (root : Nat) :
    hierarchy.ViewExact root (hierarchy.viewLines root) := by
  refine ⟨?_, ?_, fun place depth id hw => ?_⟩
  · rw [viewLines, List.map_map]
    rfl
  · rw [viewLines, walk, List.length_map, List.length_map]
  · rw [walk, List.getElem?_map] at hw
    obtain ⟨entry, he, hp⟩ := Option.map_eq_some_iff.mp hw
    obtain ⟨rfl, rfl⟩ := Prod.mk.inj hp
    refine ⟨entry.1.drawing, by rw [viewLines, List.getElem?_map, he, Option.map_some], ?_⟩
    have hf := (hierarchy.drawn_tree root).fits he
    rw [List.append_nil] at hf
    rw [walk, ← List.map_drop, List.map_map]
    exact hf.shows

end Hierarchy

theorem Identifier.newline_not_mem_normalized (ident : Identifier) :
    '\n' ∉ ident.normalized.toList := by
  rcases ident.normalized_cases with ⟨inner, ht, hi⟩ | ⟨hw, _⟩
  · obtain ⟨items, hitems, rfl⟩ := (innerFault?_eq_none_iff inner).mp hi
    have hinner : '\n' ∉ items.flatten := by
      intro hm
      obtain ⟨item, hitem, hm⟩ := List.mem_flatten.mp hm
      cases hitems item hitem with
      | doubled => simp at hm
      | graphic hg =>
        obtain rfl := List.mem_singleton.mp hm
        exact absurd hg (by decide)
    simp [ht, hinner]
  · intro hm
    exact absurd (List.all_eq_true.mp hw _ hm) (by decide)

theorem UnitKey.Named.newline_not_mem_render {key : UnitKey} (h : key.Named)
    (library : Identifier) : '\n' ∉ (key.render library.normalized).toList := by
  cases h <;> simp [render, Identifier.newline_not_mem_normalized]

theorem Twig.newline_not_mem_drawing (twig : Twig) : '\n' ∉ twig.drawing.toList := by
  rcases twig.eq_root_or_child with rfl | ⟨upper, last, rfl⟩
  · exact List.not_mem_nil
  · rw [drawing_child, String.toList_join, List.mem_flatMap]
    rintro ⟨group, hg, hm⟩
    have hall : ∀ group ∈ ["   ", "│  ", "└─ ", "├─ "], '\n' ∉ group.toList := by decide
    exact hall group (mem_groups hg) hm

/-- A text of lines that hold no line ends is cut at its line ends into these lines. -/
theorem splitOn_join_lines {lines : List String} (h : ∀ line ∈ lines, '\n' ∉ line.toList) :
    (String.join (lines.map (· ++ "\n"))).toList.splitOn '\n' =
      lines.map String.toList ++ [[]] := by
  induction lines with
  | nil => rfl
  | cons line lines ih =>
    obtain ⟨hl, hr⟩ := List.forall_mem_cons.mp h
    have hne : ∀ c ∈ line.toList, (c == '\n') = false := by
      intro c hc
      rw [beq_eq_false_iff_ne]
      rintro rfl
      exact hl hc
    rw [List.map_cons, String.join_cons, String.toList_append, String.toList_append,
      List.append_assoc, List.map_cons, List.cons_append, ← ih hr]
    exact List.splitOnP_append_cons_of_forall_mem hne '\n' rfl _

namespace Hierarchy

variable {hierarchy : Hierarchy} {root : Nat}

def Analyzed (hierarchy : Hierarchy) : Prop :=
  ∃ design : Design, design.Reachable ∧
    ∃ analysis, design.analysis = some analysis ∧ analysis.hierarchy = hierarchy

theorem Analyzed.exists_faithful (h : hierarchy.Analyzed) :
    ∃ (analysis : Analysis) (store : Store), analysis.Faithful store ∧
      analysis.hierarchy = hierarchy := by
  obtain ⟨design, hr, analysis, ha, rfl⟩ := h
  obtain ⟨store, hb, _, rfl⟩ := hr.grounded.analyzed analysis ha
  exact ⟨_, _, hb.registry.faithful_analyze, rfl⟩

theorem Analyzed.newline_not_mem_keyOf? (h : hierarchy.Analyzed) (id : Nat) :
    '\n' ∉ ((hierarchy.graph.keyOf? id).getD "").toList := by
  obtain ⟨analysis, store, hf, rfl⟩ := h.exists_faithful
  rw [Graph.keyOf?]
  cases hv : analysis.hierarchy.graph.vertex? id with
  | none => exact List.not_mem_nil
  | some entry =>
    obtain ⟨registered, _, predefined, rfl⟩ := hf.exists_registered hv
    exact registered.unit.named_key.newline_not_mem_render registered.library.ident

theorem lt_numVertices_of_mem_walk (h : hierarchy.graph.Closed)
    (hr : root < hierarchy.graph.numVertices) {entry : Nat × Nat}
    (he : entry ∈ hierarchy.walk root) : entry.2 < hierarchy.graph.numVertices := by
  obtain ⟨node, hn, rfl⟩ := List.mem_map.mp he
  have hreach := (mem_tree_iff h).mp (List.mem_map_of_mem hn)
  cases hreach with
  | refl => exact hr
  | tail _ hc =>
    obtain ⟨edge, he, hs⟩ := List.mem_map.mp hc
    exact hs ▸ (h edge (List.mem_filter.mp he).1).1

/-- The view of an analyzed design can be read again. Below a vertex every line has the key of a
vertex, and the lines are those of the text. -/
structure Legible (hierarchy : Hierarchy) (root : Nat) (lines : List String) : Prop where
  keyed : root < hierarchy.graph.numVertices → ∀ entry ∈ hierarchy.walk root,
    ∃ key, hierarchy.graph.keyOf? entry.2 = some key
  cut : (hierarchy.treeView root).toList.splitOn '\n' = lines.map String.toList ++ [[]]

theorem Analyzed.legible (h : hierarchy.Analyzed) (root : Nat) :
    hierarchy.Legible root (hierarchy.viewLines root) := by
  refine ⟨fun hr entry he => ?_, ?_⟩
  · obtain ⟨analysis, store, hf, rfl⟩ := h.exists_faithful
    have hlt := lt_numVertices_of_mem_walk hf.hierarchyDerived.closed hr he
    exact DependencyGraph.exists_keyOf? hlt
  · rw [(hierarchy.viewExact root).view]
    refine splitOn_join_lines (List.forall_mem_map.mpr fun entry _ => ?_)
    rw [String.toList_append, List.mem_append, not_or]
    exact ⟨entry.1.newline_not_mem_drawing, h.newline_not_mem_keyOf? entry.2⟩

/-- In every hierarchy the view of every tree draws what the walk lists, and that of an analyzed
design can be read again. -/
theorem view_draws_walk (hierarchy : Hierarchy) (root : Nat) :
    ∃ lines, hierarchy.ViewExact root lines ∧
      (hierarchy.Analyzed → hierarchy.Legible root lines) :=
  ⟨hierarchy.viewLines root, hierarchy.viewExact root, fun h => h.legible root⟩

example :
    let label : UnitVertex :=
      { kind := .unit .architecture, predefined := false, target := .library ⟨0⟩, name := "" }
    let hierarchy : Hierarchy :=
      { graph :=
          { vertices := [("a", label), ("b", label), ("c", label)]
            edges := [⟨1, 0, .entityInstantiation⟩, ⟨2, 0, .entityInstantiation⟩,
              ⟨2, 1, .entityInstantiation⟩, ⟨0, 2, .entityInstantiation⟩] } }
    hierarchy.walk 0 = [(0, 0), (1, 1), (2, 2), (3, 0), (1, 2), (2, 0)] ∧
      hierarchy.treeView 0 = "a\n├─ b\n│  └─ c\n│     └─ a\n└─ c\n   └─ a\n" :=
  ⟨by cbv, by cbv⟩

end Hierarchy

theorem Design.belfries_views :
    ∃ analysis, belfries.analyze.design.analysis = some analysis ∧ analysis.hierarchy.Analyzed ∧
      ∀ root, ∃ lines, analysis.hierarchy.ViewExact root lines ∧
        analysis.hierarchy.Legible root lines := by
  have h : belfries.store.analyze.analysis.hierarchy.Analyzed :=
    ⟨_, .analyze belfries_reachable, _, rfl, rfl⟩
  refine ⟨_, rfl, h, fun root => ?_⟩
  obtain ⟨lines, hv, hl⟩ := Hierarchy.view_draws_walk belfries.store.analyze.analysis.hierarchy root
  exact ⟨lines, hv, hl h⟩

end Vhdl
