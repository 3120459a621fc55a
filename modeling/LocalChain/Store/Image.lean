import LocalChain.Store.Index

/-! Walking a table by its primary key, and tables whose rows are encoded one by one. -/
namespace LocalChain.Store.Table

variable {κ ν ρ σ : Type} [LinearOrder κ] [LinearOrder ν] {key : ρ → κ} {codeKey : σ → κ}

/-- The first row whose primary key is not below `k`. -/
def lowerBound (table : Table key) (k : κ) : Option ρ := table.rows.find? (fun row => k ≤ key row)

/-- The row that precedes primary key `k`. -/
def previous? (table : Table key) (k : κ) : Option ρ := (table.rows.filter (fun row => key row < k)).getLast?

/-- The table of the encoded rows. -/
def image (table : Table key) (encode : ρ → σ) (same : ∀ row, codeKey (encode row) = key row) :
    Table codeKey where
  rows := table.rows.map encode
  sorted := List.pairwise_map.mpr (table.sorted.imp fun less => by rwa [same, same])

variable {table : Table key} {encode : ρ → σ} {same : ∀ row, codeKey (encode row) = key row}
  {secondary : ρ → ν} {codeSecondary : σ → ν} {wanted : ρ → Bool} {codeWanted : σ → Bool}

theorem mem_of_lowerBound {k : κ} {row : ρ} (found : table.lowerBound k = some row) : row ∈ table.rows :=
  List.mem_of_find?_eq_some found

theorem mem_of_next? {k : κ} {row : ρ} (found : table.next? k = some row) : row ∈ table.rows :=
  List.mem_of_find?_eq_some found

theorem lt_of_next? {k : κ} {row : ρ} (found : table.next? k = some row) : k < key row := by
  simpa using List.find?_some found

theorem mem_of_previous? {k : κ} {row : ρ} (found : table.previous? k = some row) : row ∈ table.rows :=
  (List.mem_filter.mp (List.mem_of_getLast? found)).1

theorem mem_of_leastWhere {row : ρ} (found : table.leastWhere secondary wanted = some row) : row ∈ table.rows :=
  (leastWhere_eq_some.mp found).1

theorem mem_of_greatestWhere {row : ρ} (found : table.greatestWhere secondary wanted = some row) :
    row ∈ table.rows :=
  (greatestWhere_eq_some.mp found).1

/-! An image answers with the encoded rows. -/

theorem find?_image (k : κ) : (table.image encode same).find? k = (table.find? k).map encode := by
  have agree : (fun code => decide (codeKey code = k)) ∘ encode = fun row => decide (key row = k) := by
    funext row
    rw [Function.comp_apply, same]
  rw [find?, image, List.find?_map, agree, find?]

theorem lowerBound_image (k : κ) : (table.image encode same).lowerBound k = (table.lowerBound k).map encode := by
  have agree : (fun code => decide (k ≤ codeKey code)) ∘ encode = fun row => decide (k ≤ key row) := by
    funext row
    rw [Function.comp_apply, same]
  rw [lowerBound, image, List.find?_map, agree, lowerBound]

theorem next?_image (k : κ) : (table.image encode same).next? k = (table.next? k).map encode := by
  have agree : (fun code => decide (k < codeKey code)) ∘ encode = fun row => decide (k < key row) := by
    funext row
    rw [Function.comp_apply, same]
  rw [next?, image, List.find?_map, agree, next?]

theorem last?_image : (table.image encode same).last? = table.last?.map encode := List.getLast?_map

theorem previous?_image (k : κ) : (table.image encode same).previous? k = (table.previous? k).map encode := by
  have agree : (fun code => decide (codeKey code < k)) ∘ encode = fun row => decide (key row < k) := by
    funext row
    rw [Function.comp_apply, same]
  rw [previous?, image, List.filter_map, List.getLast?_map, agree, previous?]

theorem image_put (row : ρ) : (table.put row).image encode same = (table.image encode same).put (encode row) := by
  have below : (fun code => decide (codeKey code < codeKey (encode row))) ∘ encode =
      fun other => decide (key other < key row) := by
    funext other
    rw [Function.comp_apply, same, same]
  have above : (fun code => decide (codeKey (encode row) < codeKey code)) ∘ encode =
      fun other => decide (key row < key other) := by
    funext other
    rw [Function.comp_apply, same, same]
  apply ext
  simp only [image, put, List.map_append, List.map_cons, List.filter_map, below, above]

theorem image_erase (k : κ) : (table.erase k).image encode same = (table.image encode same).erase k := by
  have agree : (fun code => decide (codeKey code ≠ k)) ∘ encode = fun row => decide (key row ≠ k) := by
    funext row
    rw [Function.comp_apply, same]
  apply ext
  simp only [image, erase, List.filter_map, agree]

theorem mem_image {code : σ} : code ∈ (table.image encode same).rows ↔ ∃ row ∈ table.rows, encode row = code :=
  List.mem_map

omit [LinearOrder κ] [LinearOrder ν] in
theorem place_image (same : ∀ row, codeKey (encode row) = key row)
    (agree : ∀ row, codeSecondary (encode row) = secondary row) (row : ρ) :
    place codeKey codeSecondary (encode row) = place key secondary row := by
  rw [place, place, agree, same]

theorem leastWhere_image (agree : ∀ row, codeSecondary (encode row) = secondary row)
    (judged : ∀ row, codeWanted (encode row) = wanted row) :
    (table.image encode same).leastWhere codeSecondary codeWanted =
      (table.leastWhere secondary wanted).map encode := by
  cases least : table.leastWhere secondary wanted with
  | none =>
    refine leastWhere_eq_none.mpr fun code present => ?_
    obtain ⟨row, member, rfl⟩ := mem_image.mp present
    rw [judged]
    exact leastWhere_eq_none.mp least row member
  | some row =>
    obtain ⟨member, kept, lowest⟩ := leastWhere_eq_some.mp least
    refine leastWhere_eq_some.mpr ⟨mem_image.mpr ⟨row, member, rfl⟩, (judged row).trans kept, ?_⟩
    intro code present also
    obtain ⟨other, inside, rfl⟩ := mem_image.mp present
    rw [place_image same agree, place_image same agree]
    exact lowest other inside ((judged other).symm.trans also)

theorem greatestWhere_image (agree : ∀ row, codeSecondary (encode row) = secondary row)
    (judged : ∀ row, codeWanted (encode row) = wanted row) :
    (table.image encode same).greatestWhere codeSecondary codeWanted =
      (table.greatestWhere secondary wanted).map encode := by
  cases greatest : table.greatestWhere secondary wanted with
  | none =>
    refine greatestWhere_eq_none.mpr fun code present => ?_
    obtain ⟨row, member, rfl⟩ := mem_image.mp present
    rw [judged]
    exact greatestWhere_eq_none.mp greatest row member
  | some row =>
    obtain ⟨member, kept, highest⟩ := greatestWhere_eq_some.mp greatest
    refine greatestWhere_eq_some.mpr ⟨mem_image.mpr ⟨row, member, rfl⟩, (judged row).trans kept, ?_⟩
    intro code present also
    obtain ⟨other, inside, rfl⟩ := mem_image.mp present
    rw [place_image same agree, place_image same agree]
    exact highest other inside ((judged other).symm.trans also)

theorem indexLowerBound_image (agree : ∀ row, codeSecondary (encode row) = secondary row) (value : ν) :
    (table.image encode same).indexLowerBound codeSecondary value =
      (table.indexLowerBound secondary value).map encode :=
  leastWhere_image agree fun row => by rw [agree]

theorem indexUpperBound_image (agree : ∀ row, codeSecondary (encode row) = secondary row) (value : ν) :
    (table.image encode same).indexUpperBound codeSecondary value =
      (table.indexUpperBound secondary value).map encode :=
  leastWhere_image agree fun row => by rw [agree]

theorem indexNext_image (agree : ∀ row, codeSecondary (encode row) = secondary row) (row : ρ) :
    (table.image encode same).indexNext codeSecondary (encode row) = (table.indexNext secondary row).map encode :=
  leastWhere_image agree fun other => by rw [place_image same agree, place_image same agree]

theorem indexPrevious_image (agree : ∀ row, codeSecondary (encode row) = secondary row) (itr : Option ρ) :
    (table.image encode same).indexPrevious codeSecondary (itr.map encode) =
      (table.indexPrevious secondary itr).map encode := by
  cases itr with
  | none => exact greatestWhere_image agree fun _ => rfl
  | some row =>
    exact greatestWhere_image agree fun other => by
      rw [place_image same agree, place_image same agree]

end LocalChain.Store.Table
