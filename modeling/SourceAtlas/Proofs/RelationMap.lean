import SourceAtlas.Relation

/-!
# Relation maps filled symbol by symbol

Where all relations of one symbol are added before those of the next, and no symbol comes
twice, a relation map is the list of the symbols with their relations, less the symbols
that have none.
-/

namespace SourceAtlas
namespace RelationMap

theorem pushEntry_of_fresh {source : String} (relation : Relation)
    {entries : List (String × List Relation)} (fresh : source ∉ entries.map (·.1)) :
    pushEntry source relation entries = entries ++ [(source, [relation])] := by
  induction entries with
  | nil => rfl
  | cons entry entries ih =>
      obtain ⟨name, relations⟩ := entry
      rw [List.map_cons, List.mem_cons, not_or] at fresh
      rw [pushEntry, if_neg (Ne.symm fresh.1), ih fresh.2, List.cons_append]

theorem pushEntry_last {source : String} (relation : Relation)
    {entries : List (String × List Relation)} (fresh : source ∉ entries.map (·.1))
    (relations : List Relation) :
    pushEntry source relation (entries ++ [(source, relations)]) =
      entries ++ [(source, relations ++ [relation])] := by
  induction entries with
  | nil => simp [pushEntry]
  | cons entry entries ih =>
      obtain ⟨name, others⟩ := entry
      rw [List.map_cons, List.mem_cons, not_or] at fresh
      rw [List.cons_append, pushEntry, if_neg (Ne.symm fresh.1), ih fresh.2, List.cons_append]

theorem pushAll_last {source : String} {entries : List (String × List Relation)}
    (fresh : source ∉ entries.map (·.1)) (relations found : List Relation) :
    (pushAll ⟨entries ++ [(source, relations)]⟩ source found).entries =
      entries ++ [(source, relations ++ found)] := by
  induction found generalizing relations with
  | nil => simp [pushAll]
  | cons relation found ih =>
      have rest := ih (relations ++ [relation])
      rw [List.append_assoc, List.singleton_append] at rest
      rw [← rest, pushAll, List.foldl_cons, push, pushEntry_last relation fresh]
      rfl

theorem pushAll_of_fresh {source : String} {map : RelationMap}
    (fresh : source ∉ map.entries.map (·.1)) (found : List Relation) :
    (map.pushAll source found).entries =
      map.entries ++ [(source, found)].filter (!·.2.isEmpty) := by
  cases found with
  | nil => simp [pushAll]
  | cons relation found =>
      rw [pushAll, List.foldl_cons, push, pushEntry_of_fresh relation fresh]
      exact pushAll_last fresh [relation] found

/-- A map filled with the relations of distinct symbols lists the symbols that have
relations, with exactly these. -/
theorem foldl_pushAll_entries (found : List (String × List Relation)) (map : RelationMap)
    (distinct : (found.map (·.1)).Nodup)
    (fresh : ∀ source ∈ found.map (·.1), source ∉ map.entries.map (·.1)) :
    (found.foldl (fun map (name, relations) => map.pushAll name relations) map).entries =
      map.entries ++ found.filter (!·.2.isEmpty) := by
  induction found generalizing map with
  | nil => simp
  | cons entry found ih =>
      obtain ⟨name, relations⟩ := entry
      obtain ⟨alone, distinctRest⟩ := List.nodup_cons.mp distinct
      have entered := pushAll_of_fresh (fresh name (by simp)) relations
      rw [List.foldl_cons, ih _ distinctRest, entered, List.append_assoc, ← List.filter_append]
      · rfl
      · intro source later known
        rw [entered, List.map_append, List.mem_append] at known
        rcases known with old | new
        · exact fresh source (List.mem_cons_of_mem _ later) old
        · have same : source = name := by
            obtain ⟨entry, member, rfl⟩ := List.mem_map.mp new
            have single := (List.mem_filter.mp member).1
            rw [List.mem_singleton.mp single]
          exact alone (same ▸ later)

/-- Leaving out the symbols without relations does not change what is found under a
name. -/
theorem getD_lookup_filter {name : String} {relations : List Relation}
    {found : List (String × List Relation)} (distinct : (found.map (·.1)).Nodup)
    (member : (name, relations) ∈ found) :
    ((found.filter (!·.2.isEmpty)).lookup name).getD [] = relations := by
  induction found with
  | nil => simp at member
  | cons entry found ih =>
      obtain ⟨alone, distinctRest⟩ := List.nodup_cons.mp distinct
      rcases List.mem_cons.mp member with rfl | later
      · cases relations with
        | cons relation relations => simp
        | nil =>
            have absent : (found.filter (!·.2.isEmpty)).lookup name = none := by
              rw [List.lookup_eq_none_iff]
              intro other kept
              rw [bne_iff_ne]
              rintro rfl
              exact alone (List.mem_map.mpr ⟨other, (List.mem_filter.mp kept).1, rfl⟩)
            simp [absent]
      · have different : (name == entry.1) = false := by
          rw [beq_eq_false_iff_ne]
          rintro rfl
          exact alone (List.mem_map.mpr ⟨_, later, rfl⟩)
        rw [List.filter_cons]
        split
        · rw [List.lookup_cons, different]
          exact ih distinctRest later
        · exact ih distinctRest later

end RelationMap
end SourceAtlas
