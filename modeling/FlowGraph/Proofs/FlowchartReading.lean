import FlowGraph.Flowchart
import FlowGraph.Proofs.Legality
import Mathlib.Data.List.Sort
import Mathlib.Data.List.SplitBy
import Mathlib.Data.Prod.Lex
import Mathlib.Data.String.Basic

/-!
# Reading a flowchart

Nothing in a flowchart sets its nodes off from its edges, its edges from its
routes, or the routes of one router from those of the next.  But as long as the
texts in it are words, what comes after a word tells how its line goes on, so
the flowchart falls into lines in one way only.  The lines give the structure
back, because sources are distinct and no router is without routes.

* `Line.chars_append_inj`: **lines are a prefix code.**
* `regroup_flatMap_withKey`: routes one after the other fall into routers again.
* `flowchart_eq_iff`: **a flowchart shows the structure, and nothing else.**
* `sortedRoutes_eq`: in which order the routes of a router come up is not seen.
* `flowchart_tells_structure`: so it is for all drafts.
-/

namespace FlowGraph

/-! ## Words -/

namespace Text

/-- What ends a word in a line: a space, a line break, an opening bracket, a bar. -/
def endsWord (c : Char) : Bool := c == ' ' || c == '\n' || c == '[' || c == '|'

/-- A word is a text in which nothing ends one; the empty text is a word. -/
def isWord (text : String) : Bool := text.toList.all fun c => !endsWord c

/-- What names are made of: letters, digits and underscores, and all beyond ASCII. -/
def isNameChar (c : Char) : Bool := c.isAlphanum || c == '_' || 0x80 ≤ c.toNat

/-- Letters, digits and underscores make a word, be they inside ASCII or beyond. -/
theorem isWord_of_forall {text : String} (h : ∀ c ∈ text.toList, isNameChar c = true) :
    isWord text = true := by
  refine List.all_eq_true.mpr fun c hc => ?_
  rw [Bool.not_eq_true', ← Bool.not_eq_true]
  intro hends
  simp only [endsWord, Bool.or_eq_true, beq_iff_eq] at hends
  rcases hends with ((rfl | rfl) | rfl) | rfl <;> exact absurd (h _ hc) (by decide)

/-- **A word is over where the first character comes that ends one.** -/
theorem word_append_inj {a b : String} (ha : isWord a = true) (hb : isWord b = true) {x y : Char}
    (hx : endsWord x = true) (hy : endsWord y = true) {rest rest' : List Char}
    (h : a.toList ++ x :: rest = b.toList ++ y :: rest') : a = b ∧ x = y ∧ rest = rest' := by
  have ha' := List.all_eq_true.mp ha
  have hb' := List.all_eq_true.mp hb
  have hword : a.toList = b.toList := by
    have hfront := congrArg (List.takeWhile fun c => !endsWord c) h
    rwa [List.takeWhile_append_of_pos ha', List.takeWhile_append_of_pos hb',
      List.takeWhile_cons_of_neg (by simp [hx]), List.takeWhile_cons_of_neg (by simp [hy]),
      List.append_nil, List.append_nil] at hfront
  rw [hword, List.append_cancel_left_eq, List.cons.injEq] at h
  exact ⟨String.toList_inj.mp hword, h⟩

end Text

/-! ## Blocks under keys -/

section Blocks

variable {α β : Type}

/-- The items of a block, each with the key of the block. -/
def withKey (block : α × List β) : List (α × β) := block.2.map fun item => (block.1, item)

/-- Items put into blocks; a block goes on as long as the key is the same. -/
def regroup [DecidableEq α] (items : List (α × β)) : List (α × List β) :=
  (items.splitBy fun p q => p.1 == q.1).filterMap fun group =>
    group.head?.map fun first => (first.1, group.map Prod.snd)

/-- Each item has the key of its block. -/
theorem fst_of_mem_withKey {block : α × List β} {item : α × β} (h : item ∈ withKey block) :
    item.1 = block.1 := by
  obtain ⟨value, -, rfl⟩ := List.mem_map.mp h
  rfl

variable [DecidableEq α] {blocks : List (α × List β)}

/-- Blocks one after the other part where the key changes. -/
theorem splitBy_flatMap_withKey (hdistinct : (blocks.map Prod.fst).Nodup)
    (hfull : ∀ block ∈ blocks, block.2 ≠ []) :
    (blocks.flatMap withKey).splitBy (fun p q => p.1 == q.1) = blocks.map withKey := by
  have hfilled : ∀ block ∈ blocks, withKey block ≠ [] := by
    intro block hblock hempty
    exact hfull block hblock (List.map_eq_nil_iff.mp hempty)
  rw [List.flatMap_def]
  refine List.splitBy_flatten ?_ ?_ ?_
  · intro hmem
    obtain ⟨block, hblock, hempty⟩ := List.mem_map.mp hmem
    exact hfilled block hblock hempty
  · intro group hgroup
    obtain ⟨block, -, rfl⟩ := List.mem_map.mp hgroup
    refine List.Pairwise.isChain (List.pairwise_of_forall_mem_list ?_)
    intro item hitem other hother
    rw [fst_of_mem_withKey hitem, fst_of_mem_withKey hother, beq_self_eq_true]
  · rw [List.isChain_map]
    refine List.Pairwise.isChain ((List.pairwise_map.mp hdistinct).imp_of_mem ?_)
    intro block other hblock hother hne
    refine ⟨hfilled block hblock, hfilled other hother, ?_⟩
    rw [fst_of_mem_withKey (List.getLast_mem _), fst_of_mem_withKey (List.head_mem _),
      beq_eq_false_iff_ne]
    exact hne

/-- **Blocks that are written one after the other can be told apart**, if their
keys are distinct and none is empty. -/
theorem regroup_flatMap_withKey (hdistinct : (blocks.map Prod.fst).Nodup)
    (hfull : ∀ block ∈ blocks, block.2 ≠ []) : regroup (blocks.flatMap withKey) = blocks := by
  have hback : ∀ block ∈ blocks, ((withKey block).head?.map fun first =>
      (first.1, (withKey block).map Prod.snd)) = some block := by
    intro block hblock
    obtain ⟨key, values⟩ := block
    cases values with
    | nil => exact absurd rfl (hfull _ hblock)
    | cons value values => simp [withKey, Function.comp_def]
  rw [regroup, splitBy_flatMap_withKey hdistinct hfull, List.filterMap_map]
  exact (List.filterMap_congr hback).trans List.filterMap_some

end Blocks

namespace Topology

/-! ## Lines -/

/-- What a line of a flowchart says, below the frame. -/
inductive Line where
  /-- A node, and whether it has the double frame of a nested graph. -/
  | node (id : String) (nested : Bool)
  | edge (source target : String)
  | route (source label target : String)

namespace Line

/-- The first word of a line. -/
def head : Line → String
  | node id _ => id
  | edge source _ => source
  | route source _ _ => source

/-- The characters of a line after its first word. -/
def tail : Line → List Char
  | node id false => '[' :: '\x22' :: (id.toList ++ ['\x22', ']', '\n'])
  | node id true => '[' :: '[' :: '\x22' :: (id.toList ++ ['\x22', ']', ']', '\n'])
  | edge _ target => ' ' :: '-' :: '-' :: '>' :: ' ' :: (target.toList ++ ['\n'])
  | route _ label target =>
    ' ' :: '-' :: '.' :: '-' :: '>' :: '|' ::
      (label.toList ++ '|' :: ' ' :: (target.toList ++ ['\n']))

/-- The characters of a line. -/
def chars (line : Line) : List Char := ' ' :: ' ' :: ' ' :: ' ' :: (line.head.toList ++ line.tail)

/-- The node of a line, if it is the line of one. -/
def node? : Line → Option (String × Bool)
  | node id nested => some (id, nested)
  | _ => none

/-- The edge of a line, if it is the line of one. -/
def edge? : Line → Option (String × String)
  | edge source target => some (source, target)
  | _ => none

/-- The route of a line with its source, if it is the line of one. -/
def route? : Line → Option (String × String × String)
  | route source label target => some (source, label, target)
  | _ => none

/-- A line whose texts are words. -/
def Worded : Line → Prop
  | node id _ => Text.isWord id = true
  | edge source target => Text.isWord source = true ∧ Text.isWord target = true
  | route source label target =>
    Text.isWord source = true ∧ Text.isWord label = true ∧ Text.isWord target = true

/-- The first word of a line of words is a word. -/
theorem Worded.isWord_head {line : Line} (h : line.Worded) : Text.isWord line.head = true := by
  cases line with
  | node id nested => exact h
  | edge source target => exact h.1
  | route source label target => exact h.1

/-- What follows the first word ends it. -/
theorem exists_tail (line : Line) : ∃ c rest, Text.endsWord c = true ∧ line.tail = c :: rest := by
  cases line with
  | node id nested => cases nested <;> exact ⟨_, _, by decide, rfl⟩
  | edge source target => exact ⟨_, _, by decide, rfl⟩
  | route source label target => exact ⟨_, _, by decide, rfl⟩

/-- Lines with one first word go on differently: the characters after it tell
the kind of line, and the words that follow are over where they end. -/
theorem tail_append_inj {a b : Line} (ha : a.Worded) (hb : b.Worded) (hhead : a.head = b.head)
    {rest rest' : List Char} (h : a.tail ++ rest = b.tail ++ rest') : a = b ∧ rest = rest' := by
  cases a with
  | node id nested =>
      cases b with
      | node id' nested' =>
          -- the id comes up once more, but it is known by now
          cases hhead
          cases nested <;> cases nested' <;> simp_all [tail]
      | edge source target => cases nested <;> simp [tail] at h
      | route source label target => cases nested <;> simp [tail] at h
  | edge source target =>
      cases b with
      | node id nested => cases nested <;> simp [tail] at h
      | edge source' target' =>
          cases hhead
          simp only [tail, List.cons_append, List.append_assoc, List.cons.injEq, true_and,
            List.nil_append] at h
          obtain ⟨rfl, -, rfl⟩ := Text.word_append_inj ha.2 hb.2 (by decide) (by decide) h
          exact ⟨rfl, rfl⟩
      | route source' label target' => simp [tail] at h
  | route source label target =>
      cases b with
      | node id nested => cases nested <;> simp [tail] at h
      | edge source' target' => simp [tail] at h
      | route source' label' target' =>
          cases hhead
          simp only [tail, List.cons_append, List.append_assoc, List.cons.injEq, true_and,
            List.nil_append] at h
          obtain ⟨rfl, -, h⟩ := Text.word_append_inj ha.2.1 hb.2.1 (by decide) (by decide) h
          simp only [List.cons.injEq, true_and] at h
          obtain ⟨rfl, -, rfl⟩ := Text.word_append_inj ha.2.2 hb.2.2 (by decide) (by decide) h
          exact ⟨rfl, rfl⟩

/-- **Lines are a prefix code**: whatever follows them, two lines of words begin
alike only if they are the same line. -/
theorem chars_append_inj {a b : Line} (ha : a.Worded) (hb : b.Worded) {rest rest' : List Char}
    (h : a.chars ++ rest = b.chars ++ rest') : a = b ∧ rest = rest' := by
  obtain ⟨x, xs, hx, hxs⟩ := exists_tail a
  obtain ⟨y, ys, hy, hys⟩ := exists_tail b
  have hwords : a.head.toList ++ x :: (xs ++ rest) = b.head.toList ++ y :: (ys ++ rest') := by
    simpa [chars, hxs, hys] using h
  obtain ⟨hhead, rfl, hrest⟩ :=
    Text.word_append_inj ha.isWord_head hb.isWord_head hx hy hwords
  refine tail_append_inj ha hb hhead ?_
  rw [hxs, hys, List.cons_append, List.cons_append, hrest]

/-- A text falls into lines of words in one way only. -/
theorem flatMap_chars_inj {lines lines' : List Line} (hwords : ∀ line ∈ lines, line.Worded)
    (hwords' : ∀ line ∈ lines', line.Worded)
    (h : lines.flatMap chars = lines'.flatMap chars) : lines = lines' := by
  induction lines generalizing lines' with
  | nil =>
      cases lines' with
      | nil => rfl
      | cons line' rest' => simp [chars] at h
  | cons line rest ih =>
      cases lines' with
      | nil => simp [chars] at h
      | cons line' rest' =>
          obtain ⟨hline, hrest⟩ := List.forall_mem_cons.mp hwords
          obtain ⟨hline', hrest'⟩ := List.forall_mem_cons.mp hwords'
          rw [List.flatMap_cons, List.flatMap_cons] at h
          obtain ⟨rfl, htext⟩ := chars_append_inj hline hline' h
          rw [ih hrest hrest' htext]

end Line

/-! ## The structure that is shown -/

variable {γ δ : Type}

/-- The nodes as a flowchart shows them: their ids, and which are nested graphs. -/
def shownNodes (t : Topology γ) : List (String × Bool) :=
  t.nodes.map fun node => (node.id, node.body.isSubgraph)

/-- The routers as a flowchart shows them: their sources, and where the labels lead. -/
def shownRouters (t : Topology γ) : List (String × Table String) :=
  t.routers.map fun entry => (entry.1, entry.2.routes)

/-- The routes of all routers, in the order in which they are drawn. -/
def shownRoutes (t : Topology γ) : List (String × String × String) :=
  (t.shownRouters.map fun entry => (entry.1, entry.2.fields)).flatMap withKey

/-- The lines of a flowchart below the frame. -/
def lines (t : Topology γ) : List Line :=
  (t.shownNodes.map fun node => .node node.1 node.2) ++
    (t.edges.map fun edge => .edge edge.1 edge.2) ++
    t.shownRoutes.map fun route => .route route.1 route.2.1 route.2.2

/-- All texts in a flowchart are words: the ids of the nodes, the ends of the
edges, and the sources, labels and targets of the routers. -/
@[mk_iff]
structure Worded (t : Topology γ) : Prop where
  nodes : ∀ id ∈ t.nodeIds, Text.isWord id = true
  edges : ∀ edge ∈ t.edges, Text.isWord edge.1 = true ∧ Text.isWord edge.2 = true
  sources : ∀ entry ∈ t.routers, Text.isWord entry.1 = true
  routes : ∀ entry ∈ t.routers, ∀ route ∈ entry.2.routes.fields,
    Text.isWord route.1 = true ∧ Text.isWord route.2 = true

instance (t : Topology γ) : Decidable t.Worded := decidable_of_iff _ (worded_iff t).symm

/-- All texts in a flowchart. -/
def texts (t : Topology γ) : List String :=
  t.nodeIds ++ t.edges.flatMap (fun edge => [edge.1, edge.2]) ++
    t.routers.flatMap fun entry =>
      entry.1 :: entry.2.routes.fields.flatMap fun route => [route.1, route.2]

/-- Texts of letters, digits and underscores are words, so nothing more is needed. -/
theorem Worded.of_names {t : Topology γ}
    (h : ∀ text ∈ t.texts, text.toList.all Text.isNameChar = true) : t.Worded := by
  have hword : ∀ text ∈ t.texts, Text.isWord text = true :=
    fun text htext => Text.isWord_of_forall (List.all_eq_true.mp (h text htext))
  simp only [texts, List.forall_mem_append, List.forall_mem_flatMap, List.forall_mem_cons,
    List.not_mem_nil, false_implies, implies_true, and_true] at hword
  obtain ⟨⟨hnodes, hedges⟩, hrouters⟩ := hword
  exact ⟨hnodes, hedges, fun entry hentry => (hrouters entry hentry).1,
    fun entry hentry => (hrouters entry hentry).2⟩

/-- The text of a node is its line. -/
theorem toList_nodeLine (node : Node γ) :
    node.line.toList = (Line.node node.id node.body.isSubgraph).chars := by
  unfold Node.line
  cases node.body.isSubgraph with
  | false => simp [Line.chars, Line.head, Line.tail, toString]
  | true => simp [Line.chars, Line.head, Line.tail, toString]

/-- The text of an edge is its line. -/
theorem toList_edgeLine (edge : String × String) :
    (edgeLine edge).toList = (Line.edge edge.1 edge.2).chars := by
  simp [edgeLine, Line.chars, Line.head, Line.tail, toString]

/-- The text of a route is its line. -/
theorem toList_routeLine (source : String) (route : String × String) :
    (routeLine source route).toList = (Line.route source route.1 route.2).chars := by
  simp [routeLine, Line.chars, Line.head, Line.tail, toString]

/-- A flowchart is its frame and its lines. -/
theorem toList_flowchart (t : Topology γ) :
    t.flowchart.toList = frameLines.flatMap String.toList ++ t.lines.flatMap Line.chars := by
  simp only [flowchart, flowchartLines, lines, shownNodes, shownRoutes, shownRouters, routerLines,
    withKey, String.toList_join, List.flatMap_append, List.flatMap_map, List.flatMap_assoc,
    List.map_flatMap, List.map_map, toList_nodeLine, toList_edgeLine, toList_routeLine,
    Function.comp_def, List.append_assoc]

example : ({ nodes := [⟨"boat", .subgraph ()⟩]
             edges := [(startId, "boat")]
             routers := [("boat", ⟨fun _ _ => .ok { goto := "" },
               .ofList [("late", endId), ("", "boat")]⟩)] } : Topology Unit).flowchart =
    String.join
      ["flowchart TD\n", "    __START__((start))\n", "    __END__((stop))\n",
       "    boat[[\"boat\"]]\n", "    __START__ --> boat\n", "    boat -.->|| boat\n",
       "    boat -.->|late| __END__\n"] := by
  decide +kernel

/-- A structure of words has lines of words. -/
theorem Worded.lines {t : Topology γ} (h : t.Worded) : ∀ line ∈ t.lines, line.Worded := by
  simp only [Topology.lines, shownNodes, shownRoutes, shownRouters, withKey,
    List.forall_mem_append, List.forall_mem_map, List.forall_mem_flatMap]
  refine ⟨⟨?_, h.edges⟩, ?_⟩
  · intro node hnode
    exact h.nodes node.id (List.mem_map_of_mem hnode)
  · intro entry hentry route hroute
    exact ⟨h.sources entry hentry, h.routes entry hentry route hroute⟩

/-! ## Reading the structure off the lines -/

/-- The lines of nodes show the nodes. -/
theorem filterMap_node?_lines (t : Topology γ) : t.lines.filterMap Line.node? = t.shownNodes := by
  simp [lines, List.filterMap_append, List.filterMap_map, Function.comp_def, Line.node?]

/-- The lines of edges show the edges. -/
theorem filterMap_edge?_lines (t : Topology γ) : t.lines.filterMap Line.edge? = t.edges := by
  simp [lines, List.filterMap_append, List.filterMap_map, Function.comp_def, Line.edge?]

/-- The lines of routes show the routes. -/
theorem filterMap_route?_lines (t : Topology γ) : t.lines.filterMap Line.route? = t.shownRoutes := by
  simp [lines, List.filterMap_append, List.filterMap_map, Function.comp_def, Line.route?]

/-- The routes of a legal structure fall into its routers. -/
theorem Legal.regroup_shownRoutes {t : Topology γ} (h : t.Legal) :
    regroup t.shownRoutes = t.shownRouters.map fun entry => (entry.1, entry.2.fields) := by
  refine regroup_flatMap_withKey ?_ ?_
  · simpa [shownRouters, routed, Function.comp_def] using h.routersDistinct
  · simp only [shownRouters, List.forall_mem_map]
    intro entry hentry hempty
    simpa [Table.isEmpty, hempty] using h.routersLead entry hentry

/-- **A flowchart shows the structure**, and nothing else: legal structures of
words have one text iff they have the same nodes with the same frames, the same
edges and the same routers with the same routes, all in the same order. -/
theorem flowchart_eq_iff {t : Topology γ} {t' : Topology δ} (hlegal : t.Legal)
    (hlegal' : t'.Legal) (hwords : t.Worded) (hwords' : t'.Worded) :
    t.flowchart = t'.flowchart ↔
      t.shownNodes = t'.shownNodes ∧ t.edges = t'.edges ∧ t.shownRouters = t'.shownRouters := by
  constructor
  · intro htext
    have hchars := congrArg String.toList htext
    rw [toList_flowchart, toList_flowchart, List.append_cancel_left_eq] at hchars
    have hlines : t.lines = t'.lines := Line.flatMap_chars_inj hwords.lines hwords'.lines hchars
    have hroutes : t.shownRoutes = t'.shownRoutes := by
      rw [← filterMap_route?_lines, ← filterMap_route?_lines, hlines]
    refine ⟨?_, ?_, ?_⟩
    · rw [← filterMap_node?_lines, ← filterMap_node?_lines, hlines]
    · rw [← filterMap_edge?_lines, ← filterMap_edge?_lines, hlines]
    · have hblocks := congrArg regroup hroutes
      rw [hlegal.regroup_shownRoutes, hlegal'.regroup_shownRoutes] at hblocks
      refine List.map_injective_iff.mpr ?_ hblocks
      rintro ⟨source, fields, _⟩ ⟨source', fields', _⟩ hsame
      cases hsame
      rfl
  · rintro ⟨hnodes, hedges, hrouters⟩
    have hlines : t.lines = t'.lines := by
      rw [lines, lines, shownRoutes, shownRoutes, hnodes, hedges, hrouters]
    rw [← String.toList_inj, toList_flowchart, toList_flowchart, hlines]

/-! ## Routes in any order -/

/-- Routes, in whatever order they come up, put in order of their labels and
then of their targets. -/
def sortedRoutes (visit : List (String × String)) : List (String × String) :=
  visit.mergeSort fun a b => toLex a ≤ toLex b

/-- The flowchart, drawn from the routes of each router as they come up when its
table is visited. -/
def flowchartVisiting (t : Topology γ) (visit : String × Router → List (String × String)) :
    String :=
  String.join (frameLines ++ t.nodes.map Node.line ++ t.edges.map edgeLine ++
    t.routers.flatMap fun entry => (sortedRoutes (visit entry)).map (routeLine entry.1))

/-- **The order in which routes come up is not seen.** -/
theorem sortedRoutes_eq {routes : Table String} {visit : List (String × String)}
    (h : visit.Perm routes.fields) : sortedRoutes visit = routes.fields := by
  have hkeys : routes.fields.Pairwise fun a b => a.1 < b.1 := List.pairwise_map.mp routes.sorted
  have hfields : routes.fields.Pairwise fun a b => toLex a ≤ toLex b :=
    hkeys.imp fun hlt => Prod.Lex.toLex_le_toLex.mpr (Or.inl hlt)
  have hsorted := List.pairwise_mergeSort' (fun a b : String × String => toLex a ≤ toLex b) visit
  refine ((List.mergeSort_perm _ _).trans h).eq_of_pairwise ?_ hsorted hfields
  intro a b _ _ hab hba
  exact toLex.injective (le_antisymm hab hba)

/-- A flowchart is the same in whatever order the routes of its routers come up. -/
theorem flowchartVisiting_eq (t : Topology γ) {visit : String × Router → List (String × String)}
    (h : ∀ entry ∈ t.routers, (visit entry).Perm entry.2.routes.fields) :
    t.flowchartVisiting visit = t.flowchart := by
  have hrouters : (t.routers.flatMap fun entry =>
      (sortedRoutes (visit entry)).map (routeLine entry.1)) = t.routers.flatMap routerLines := by
    refine List.flatMap_congr fun entry hentry => ?_
    rw [sortedRoutes_eq (h entry hentry), routerLines]
  rw [flowchartVisiting, hrouters, flowchart, flowchartLines]

end Topology

namespace Draft

/-- **The text of a flowchart determines the structure.**  Two drafts, whatever
calls were made on them, whose texts are words, as all texts of letters, digits
and underscores are, have the same flowchart iff they have the same node ids
with the same of them nested graphs, the same static edges, and the same sources
of routers with the same routes, each list in the same order.  And a flowchart
is the same in whatever order the routes of each router come up when it is
drawn. -/
theorem flowchart_tells_structure (id id' : String) (keys keys' : KeyTable)
    (calls calls' : List Call) :
    let t := (attemptAll { id, keys } calls).topology
    let t' := (attemptAll { id := id', keys := keys' } calls').topology
    (t.Worded → t'.Worded →
      (t.flowchart = t'.flowchart ↔
        t.shownNodes = t'.shownNodes ∧ t.edges = t'.edges ∧
          t.shownRouters = t'.shownRouters)) ∧
      ∀ visit : String × Router → List (String × String),
        (∀ entry ∈ t.routers, (visit entry).Perm entry.2.routes.fields) →
          t.flowchartVisiting visit = t.flowchart := by
  intro t t'
  have hlegal : t.Legal := legal_attemptAll Topology.legal_empty calls
  have hlegal' : t'.Legal := legal_attemptAll Topology.legal_empty calls'
  exact ⟨Topology.flowchart_eq_iff hlegal hlegal', fun _ => t.flowchartVisiting_eq⟩

/-- A graph that leads from its entry to its exit. -/
def hold : Graph where
  id := "hold"
  keys := .empty
  topology := { edges := [(startId, endId)] }
  config := {}

/-- A quay, from which a boat leaves; who is late is led to a place that is given. -/
def ferryCalls (late : String) : List Call :=
  [.node "quay_1" (.action fun _ _ => .ok .empty), .node "boat" (.subgraph hold),
   .edge startId "quay_1",
   .router "quay_1" ⟨fun _ _ => .ok { goto := "" }, .ofList [("", "boat"), ("late", late)]⟩,
   .edge "boat" endId]

/-- Another action and another choice; the calls come in another order, and two of
them are refused. -/
def ferryCallsAgain : List Call :=
  [.edge startId "quay_1",
   .router "quay_1" ⟨fun _ _ => .ok { goto := "late" }, .ofList [("late", endId), ("", "boat")]⟩,
   .edge "quay_1" endId, .node "quay_1" (.executor fun id _ _ => .error (.actionFailed id)),
   .edge "boat" endId, .node "quay_1" (.subgraph hold), .node "boat" (.subgraph hold)]

/-- The structure that calls come to. -/
def ferry (calls : List Call) : Topology Graph :=
  (attemptAll { id := "ferry", keys := .empty } calls).topology

/-- What a node does, what a router chooses and how the ferry came about is not told,
nor in which order its routes come up; where who is late is led to is. -/
theorem flowchart_tells_routes_but_not_choices :
    (ferry (ferryCalls endId)).Worded ∧ (ferry ferryCallsAgain).Worded ∧
      (ferry (ferryCalls "quay_1")).Worded ∧
      (ferry (ferryCalls endId)).flowchart = (ferry ferryCallsAgain).flowchart ∧
      (ferry (ferryCalls endId)).flowchart ≠ (ferry (ferryCalls "quay_1")).flowchart ∧
      (ferry (ferryCalls endId)).flowchartVisiting (fun entry => entry.2.routes.fields.reverse) =
        (ferry (ferryCalls endId)).flowchart := by
  have hwords : (ferry (ferryCalls endId)).Worded := .of_names (by decide)
  have hagain : (ferry ferryCallsAgain).Worded := by decide
  have hback : (ferry (ferryCalls "quay_1")).Worded := by decide
  obtain ⟨hsame, hvisit⟩ := flowchart_tells_structure "ferry" "ferry" .empty .empty
    (ferryCalls endId) ferryCallsAgain
  obtain ⟨hother, -⟩ := flowchart_tells_structure "ferry" "ferry" .empty .empty
    (ferryCalls endId) (ferryCalls "quay_1")
  refine ⟨hwords, hagain, hback, ?_, ?_, ?_⟩
  · exact (hsame hwords hagain).mpr ⟨rfl, rfl, rfl⟩
  · intro htext
    obtain ⟨-, -, hrouters⟩ := (hother hwords hback).mp htext
    exact absurd hrouters (by decide)
  · exact hvisit _ fun entry _ => List.reverse_perm _

end Draft

end FlowGraph
