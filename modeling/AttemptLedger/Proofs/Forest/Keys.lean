import AttemptLedger.Proofs.Forest.Shape
import Mathlib.Data.List.GetD
import Mathlib.Data.List.Nodup

/-!
# Ids as keys of nodes

The attempts of a forest have ids of their own, so an id can only be that of two nodes when an attempt
bears the id of the root. Rows with such an attempt are accepted, and their forest has two nodes of one
id; the ids of all other forests are keys, and each pair of ids that a snapshot lists names two nodes.
-/

namespace AttemptLedger

namespace Forest

variable {forest : Forest} {rows : List Row}

namespace Mirrors

theorem nodup_map_id_iff (h : forest.Mirrors rows) :
    (forest.nodes.map (·.id)).Nodup ↔ ∀ row ∈ rows, row.id ≠ rootId := by
  have hmem : rootId ∈ firstSeen (rows.map (·.id)) ↔ ∃ row ∈ rows, row.id = rootId := by
    rw [← map_id_firstRows, List.mem_map, exists_firstRows_iff]
  rw [h.map_id_nodes, List.nodup_cons, hmem]
  constructor
  · rintro ⟨hnone, _⟩ row hrow hid
    exact hnone ⟨row, hrow, hid⟩
  · intro hnone
    refine ⟨?_, nodup_firstSeen _⟩
    rintro ⟨row, hrow, hid⟩
    exact hnone row hrow hid

end Mirrors

theorem nodeAt_eq_getElem {index : Nat} (h : index < forest.nodes.length) :
    forest.nodeAt index = forest.nodes[index] := List.getD_eq_getElem _ _ h

theorem lt_length_of_leads {parent child : Nat} (h : forest.Leads parent child) :
    child < forest.nodes.length := by
  obtain ⟨i, hi, heq⟩ := List.mem_mapIdx.1 h
  cases heq
  simpa [nodes] using hi

theorem existsUnique_of_nodup (h : (forest.nodes.map (·.id)).Nodup) {index : Nat}
    (hindex : index < forest.nodes.length) :
    ∃! node, node ∈ forest.nodes ∧ node.id = (forest.nodeAt index).id := by
  rw [nodeAt_eq_getElem hindex]
  refine ⟨forest.nodes[index], ⟨List.getElem_mem hindex, rfl⟩, ?_⟩
  rintro node ⟨hnode, hid⟩
  exact List.inj_on_of_nodup_map h hnode (List.getElem_mem hindex) hid

end Forest

/-- Whether the ids of a snapshot are keys: they are distinct, and each pair of ids that it lists names
one node at each end, not the same one twice. -/
structure Snapshot.HasKeys (snapshot : Snapshot) : Prop where
  nodup : (snapshot.nodes.map (·.id)).Nodup
  parent : ∀ edge ∈ snapshot.edges, ∃! node, node ∈ snapshot.nodes ∧ node.id = edge.1
  child : ∀ edge ∈ snapshot.edges, ∃! node, node ∈ snapshot.nodes ∧ node.id = edge.2
  irreflexive : ∀ edge ∈ snapshot.edges, edge.1 ≠ edge.2

theorem Forest.Mirrors.hasKeys {forest : Forest} {rows : List Row} (h : forest.Mirrors rows)
    (hnodup : (forest.nodes.map (·.id)).Nodup) : forest.snapshot.HasKeys := by
  have hlinks : ∀ edge ∈ forest.edges, ∃ parent child, parent < child ∧ child < forest.nodes.length
      ∧ edge = ((forest.nodeAt parent).id, (forest.nodeAt child).id) := by
    intro edge hedge
    rw [forest.edges_eq_map_links] at hedge
    obtain ⟨⟨parent, child⟩, hlink, rfl⟩ := List.mem_map.1 hedge
    exact ⟨parent, child, h.lt_of_leads hlink, Forest.lt_length_of_leads hlink, rfl⟩
  refine ⟨hnodup, ?_, ?_, ?_⟩
  · intro edge hedge
    obtain ⟨parent, child, hlt, hchild, rfl⟩ := hlinks edge hedge
    exact Forest.existsUnique_of_nodup hnodup (Nat.lt_trans hlt hchild)
  · intro edge hedge
    obtain ⟨parent, child, _, hchild, rfl⟩ := hlinks edge hedge
    exact Forest.existsUnique_of_nodup hnodup hchild
  · intro edge hedge hsame
    obtain ⟨parent, child, hlt, hchild, rfl⟩ := hlinks edge hedge
    have hparent := Nat.lt_trans hlt hchild
    rw [Forest.nodeAt_eq_getElem hparent, Forest.nodeAt_eq_getElem hchild] at hsame
    have hid : forest.nodes[parent].id = forest.nodes[child].id := hsame
    have heq : parent = child := by
      rw [List.nodup_iff_injective_getElem] at hnodup
      have hindex := @hnodup ⟨parent, by rwa [List.length_map]⟩ ⟨child, by rwa [List.length_map]⟩
      simp only [List.getElem_map, Fin.mk.injEq] at hindex
      exact hindex hid
    exact Nat.ne_of_lt hlt heq

/-- The ids of a snapshot are keys exactly when no row has the root's id, and in any case no two
attempts share an id. -/
theorem Tree.hasKeys_iff {rows : List Row} {forest : Forest}
    (h : Tree.ofRows rows = .ok (.forest forest)) :
    (forest.snapshot.HasKeys ↔ ∀ row ∈ rows, row.id ≠ rootId)
      ∧ (forest.snapshot.nodes.tail.map (·.id)).Nodup := by
  have hmirrors := Tree.mirrors_of_ofRows h
  constructor
  · rw [← hmirrors.nodup_map_id_iff]
    exact ⟨fun hkeys => hkeys.nodup, hmirrors.hasKeys⟩
  · have htail : (forest.nodes.map (·.id)).tail = firstSeen (rows.map (·.id)) := by
      rw [hmirrors.map_id_nodes]
      rfl
    rw [List.map_tail, Forest.snapshot, htail]
    exact nodup_firstSeen _

theorem Tree.hasKeys_of_chain :
    let row (id parentId : Int64) : Row :=
      ⟨"C", "Rust", "r", "C", "Go", 0, id, parentId, .translated, false, false, "", "", []⟩
    let rows := [row 5 (-1), row (-2) 5, row 5 (-1)]
    ∃ forest, Tree.ofRows rows = .ok (.forest forest) ∧ forest.snapshot.HasKeys
      ∧ (forest.snapshot.nodes.tail.map (·.id)).Nodup := by
  intro row rows
  obtain ⟨hkeys, hnodup⟩ := @Tree.hasKeys_iff rows _ rfl
  exact ⟨_, rfl, hkeys.2 (by decide), hnodup⟩

/-- An attempt that bears the id of the root is accepted below it: two nodes have one id, and the pair
of ids of the edge between them joins the id to itself. -/
theorem Tree.not_hasKeys_of_root_id :
    ∃ rows forest, Tree.ofRows rows = .ok (.forest forest)
      ∧ ¬(forest.snapshot.nodes.map (·.id)).Nodup ∧ ∃ edge ∈ forest.snapshot.edges, edge.1 = edge.2 := by
  let row : Row :=
    ⟨"C", "Rust", "r", "C", "Rust", 0, -1, -1, .found, false, false, "", "", []⟩
  refine ⟨[row], _, rfl, by decide, ((-1), (-1)), by decide, rfl⟩

end AttemptLedger
