import Qsf.Spec.Mysql

/-!
# Bulk fetch against row-by-row fetch

`cur:fetchAll(opt)` should give the rows that `cur:fetch(opt)` gives one after the other.
Both build a row by the same assignments, so the question is what each cell is read with:
`cursor_fetch` asks for the lengths of its row, `cursor_fetch_all` asks once, for the
first row.

* `cursorFetch_row`, `fetchUntilNothing_rows`: row by row, each row has its own lengths.
* `fetchAllLoop_rows`: in the loop, every row has the lengths of the first.
* `resultToTable_eq_iff`: when two arrays of lengths give the same table.
* `Cursor.fetchAll_agrees_iff`: exactly when the two agree.
-/

set_option autoImplicit false

namespace Qsf

variable {atof : List UInt8 → UInt64} {room : ℕ}

/-! ## Cells -/

theorem MysqlCell.read_length (c : MysqlCell) (n : ℕ) : (c.read n).length = n := by
  simp only [MysqlCell.read, List.length_take, List.length_append, List.length_cons, List.length_map,
    List.length_range]
  omega

/-- The types whose cells `pushvalue` copies by length: the default of its switch. -/
def FieldType.copied : FieldType → Bool
  | .null | .bit | .tiny | .short | .int24 | .year | .long | .longlong
  | .decimal | .newdecimal | .float | .double => false
  | _ => true

theorem pushvalue_copied {type : FieldType} (h : type.copied = true) (cell : MysqlCell) (len : ℕ) :
    pushvalue atof type (some cell) len = .string (cell.read len) := by
  cases type <;> first | rfl | cases h

theorem pushvalue_not_copied {type : FieldType} (h : type.copied = false) (row : Option MysqlCell)
    (len len' : ℕ) : pushvalue atof type row len = pushvalue atof type row len' := by
  cases row with
  | none => rfl
  | some cell => cases type <;> first | rfl | cases h

/-- The length counts for the copied types only, and only when there is a cell. -/
theorem pushvalue_eq_iff {type : FieldType} {row : Option MysqlCell} {len len' : ℕ} :
    pushvalue atof type row len = pushvalue atof type row len' ↔
      (type.copied = true → ∀ cell ∈ row, len = len') := by
  constructor
  · intro h hc cell hcell
    rw [Option.mem_def.1 hcell, pushvalue_copied hc, pushvalue_copied hc] at h
    have hread : cell.read len = cell.read len' := LuaValue.string.inj h
    rw [← cell.read_length len, hread, cell.read_length]
  · intro h
    by_cases hc : type.copied = true
    · cases row with
      | none => rfl
      | some cell => rw [h hc cell rfl]
    · exact pushvalue_not_copied (by simpa using hc) row len len'

theorem resultToTable_eq_iff {numcols : ℕ} {fields : ℕ → MysqlField} {row : MysqlRow}
    {lengths lengths' : ℕ → ℕ} {alpha : Bool} :
    resultToTable atof numcols fields row lengths alpha =
        resultToTable atof numcols fields row lengths' alpha ↔
      ∀ i, Visible (fieldKey alpha fields) numcols i → (fields i).type.copied = true →
        ∀ cell ∈ row i, lengths i = lengths' i := by
  unfold resultToTable
  rw [assign_eq_iff]
  simp only [pushvalue_eq_iff]

/-! ## Row by row -/

theorem Cursor.fetchFields_fields {cur : Cursor} {res : MysqlRes} (h : cur.myRes = some res) :
    cur.fetchFields.fields = some res.fields := by
  show cur.fields.or (cur.myRes.map mysqlFetchFields) = some res.fields
  rcases hf : cur.fields with _ | fs
  · simp only [h, Option.map_some, Option.none_or, mysqlFetchFields]
  · have hfs := cur.cached fs hf res h
    simp only [Option.some_or, hfs]

/-- A row of the result, read with the lengths of the row `measured`. -/
def tableAs (atof : List UInt8 → UInt64) (cur : Cursor) (res : MysqlRes) (opt : LuaValue)
    (measured row : MysqlRow) : LuaTable :=
  resultToTable atof cur.numcols res.fields row measured.length (alphaIdx opt)

/-- A row of the result, read with its own lengths. -/
def ownTable (atof : List UInt8 → UInt64) (cur : Cursor) (res : MysqlRes) (opt : LuaValue)
    (row : MysqlRow) : LuaTable :=
  tableAs atof cur res opt row row

/-- The result one row further on. -/
def MysqlRes.advance (res : MysqlRes) (row : MysqlRow) (rest : List MysqlRow) : MysqlRes :=
  { res with remaining := rest, currentRow := some row, lengths := row.length }

section

variable {cur : Cursor} {res : MysqlRes} {row : MysqlRow} {rest : List MysqlRow} {opt : LuaValue}

/-- `mysql_fetch_row` on a result with a row left. -/
theorem Cursor.fetchRow_row (hres : cur.myRes = some res) (hrem : res.remaining = row :: rest) :
    ∃ cur', cur.fetchRow = (some row, cur') ∧ cur'.numcols = cur.numcols ∧
      cur'.myRes = some { res with remaining := rest, currentRow := some row } := by
  refine ⟨cur.fetchRow.2, Prod.ext ?_ rfl, rfl, ?_⟩
  · simp only [Cursor.fetchRow, hres, Option.bind_some, mysqlFetchRow, hrem]
  · simp only [Cursor.fetchRow, hres, Option.map_some, mysqlFetchRow, hrem]

/-- `mysql_fetch_lengths` on a result with a current row. -/
theorem Cursor.fetchLengths_row (hres : cur.myRes = some res) (hrow : res.currentRow = some row) :
    ∃ cur', cur.fetchLengths = (true, cur') ∧ cur'.numcols = cur.numcols ∧
      cur'.myRes = some { res with lengths := row.length } := by
  refine ⟨cur.fetchLengths.2, Prod.ext ?_ rfl, rfl, ?_⟩
  · simp only [Cursor.fetchLengths, hres, Option.any_some, mysqlFetchLengths, hrow]
  · simp only [Cursor.fetchLengths, hres, Option.map_some, mysqlFetchLengths, hrow]

/-- One call of `cur:fetch(opt)` with a row left. -/
theorem cursorFetch_row (atof : List UInt8 → UInt64) (room : ℕ) (opt : LuaValue)
    (hres : cur.myRes = some res) (hrem : res.remaining = row :: rest) :
    ∃ cur', cursorFetch atof room cur opt =
        (if room < cur.numcols then .error (.stackOverflow "too many columns")
          else .ok (some (ownTable atof cur res opt row)), cur') ∧
      cur'.myRes = some (res.advance row rest) ∧ cur'.numcols = cur.numcols := by
  obtain ⟨c1, h1, hn1, hres1⟩ := Cursor.fetchRow_row hres hrem
  obtain ⟨c2, h2, hn2, hres2⟩ := Cursor.fetchLengths_row hres1 rfl
  have hf := Cursor.fetchFields_fields hres2
  have hres3 : c2.fetchFields.myRes = some (res.advance row rest) := hres2
  have hn3 : c2.fetchFields.numcols = cur.numcols := by rw [← hn1, ← hn2]; rfl
  refine ⟨c2.fetchFields, ?_, hres3, hn3⟩
  unfold cursorFetch
  rw [if_neg (by simp [hres])]
  simp only [h1, h2, hf, hres3, hn3]
  split
  · rfl
  · rfl

theorem cursorFetch_nothing (atof : List UInt8 → UInt64) (room : ℕ) (opt : LuaValue)
    (hres : cur.myRes = some res) (hrem : res.remaining = []) :
    (cursorFetch atof room cur opt).1 = .ok none := by
  simp [cursorFetch, Cursor.fetchRow, mysqlFetchRow, hres, hrem]

/-- Collecting the rows reads each with its own lengths. -/
theorem fetchUntilNothing_rows {rows : List MysqlRow} (hres : cur.myRes = some res)
    (hrem : res.remaining = rows) (hroom : cur.numcols ≤ room) :
    fetchUntilNothing atof room opt (rows.length + 1) cur =
      some (rows.map (ownTable atof cur res opt)) := by
  induction rows generalizing cur res with
  | nil =>
    have h := cursorFetch_nothing atof room opt hres hrem
    rcases hf : cursorFetch atof room cur opt with ⟨r, cur'⟩
    rw [hf] at h
    simp only at h
    simp only [fetchUntilNothing, hf, h, List.map_nil]
  | cons row rest ih =>
    obtain ⟨cur', hfetch, hres', hn⟩ := cursorFetch_row atof room opt hres hrem
    rw [if_neg (by omega)] at hfetch
    have hrest := ih hres' rfl (by omega)
    have hown : ownTable atof cur' (res.advance row rest) opt = ownTable atof cur res opt := by
      funext row'
      simp only [ownTable, tableAs, MysqlRes.advance, hn]
    simp only [fetchUntilNothing, hfetch, List.length_cons, hrest, Option.map_some, List.map_cons, hown]

/-- With less room on the stack than columns, the first call fails. -/
theorem fetchUntilNothing_full {fuel : ℕ} (hres : cur.myRes = some res)
    (hrem : res.remaining = row :: rest) (hroom : room < cur.numcols) :
    fetchUntilNothing atof room opt fuel cur = none := by
  obtain ⟨cur', hfetch, -, -⟩ := cursorFetch_row atof room opt hres hrem
  rw [if_pos hroom] at hfetch
  cases fuel with
  | zero => rfl
  | succ fuel => simp only [fetchUntilNothing, hfetch]

/-- More fuel changes nothing about a collection that came to its end. -/
theorem fetchUntilNothing_mono {fuel more : ℕ} {rows : List LuaTable} (hle : fuel ≤ more)
    (h : fetchUntilNothing atof room opt fuel cur = some rows) :
    fetchUntilNothing atof room opt more cur = some rows := by
  induction fuel generalizing cur rows more with
  | zero => cases h
  | succ fuel ih =>
    obtain ⟨more, rfl⟩ : ∃ m, more = m + 1 := ⟨more - 1, by omega⟩
    rw [fetchUntilNothing] at h ⊢
    rcases hf : cursorFetch atof room cur opt with ⟨_ | _ | t, cur'⟩
    · rw [hf] at h
      cases h
    · rw [hf] at h
      exact h
    · rw [hf] at h
      obtain ⟨rest', hrest, rfl⟩ := Option.map_eq_some_iff.1 h
      simp only [ih (Nat.le_of_succ_le_succ hle) hrest, Option.map_some]

theorem fetchUntilNothing_unique {fuel fuel' : ℕ} {rows rows' : List LuaTable}
    (h : fetchUntilNothing atof room opt fuel cur = some rows)
    (h' : fetchUntilNothing atof room opt fuel' cur = some rows') : rows = rows' := by
  have hmore := fetchUntilNothing_mono (le_max_left fuel fuel') h
  rw [fetchUntilNothing_mono (le_max_right fuel fuel') h'] at hmore
  exact (Option.some.inj hmore).symm

end

/-! ## All at once -/

theorem listTable_succ (rows : List LuaTable) (k : ℕ) : listTable rows ((k : ℤ) + 1) = rows[k]? := by
  unfold listTable
  rw [if_pos (by omega)]
  congr 1
  omega

theorem listTable_inj {a b : List LuaTable} (h : listTable a = listTable b) : a = b := by
  apply List.ext_getElem?
  intro k
  rw [← listTable_succ, h, listTable_succ]

/-- A row stored at the next key makes the list longer by one. -/
theorem listTable_snoc (rows : List LuaTable) (row : LuaTable) :
    Function.update (listTable rows) ((rows.length : ℤ) + 1) (some row) = listTable (rows ++ [row]) := by
  funext k
  by_cases hk : k = (rows.length : ℤ) + 1
  · rw [hk, Function.update_self, listTable_succ, List.getElem?_concat_length]
  · rw [Function.update_of_ne hk]
    unfold listTable
    by_cases h1 : 1 ≤ k
    · rw [if_pos h1, if_pos h1]
      by_cases hlt : (k - 1).toNat < rows.length
      · rw [List.getElem?_append_left hlt]
      · have hle : rows.length < (k - 1).toNat := by omega
        rw [List.getElem?_eq_none (by omega), List.getElem?_eq_none (by simp; omega)]
    · rw [if_neg h1, if_neg h1]

/-- `rownum` counts exactly as long as it is below `2^31`. -/
theorem rownum_toInt {n : ℕ} (h : n < 2 ^ 31) : (BitVec.ofNat 32 n).toInt = n := by
  have hsmall : n % 2 ^ 32 = n := Nat.mod_eq_of_lt (by omega)
  rw [BitVec.toInt_eq_toNat_of_lt (by rw [BitVec.toNat_ofNat, hsmall]; omega), BitVec.toNat_ofNat, hsmall]

section

variable {numcols : ℕ} {fields : ℕ → MysqlField} {alpha : Bool}

/-- **The loop.** Every row is read with the lengths that the array had before it. -/
theorem fetchAllLoop_rows {fuel : ℕ} {row? : Option MysqlRow} {res : MysqlRes} {left : List MysqlRow}
    (done : List LuaTable) (hleft : left = row?.toList ++ (if row?.isSome then res.remaining else []))
    (hfuel : left.length ≤ fuel) (hint : done.length + left.length < 2 ^ 31) :
    fetchAllLoop atof numcols fields alpha fuel row? res (BitVec.ofNat 32 (done.length + 1)) (listTable done) =
      listTable (done ++ left.map fun row => resultToTable atof numcols fields row res.lengths alpha) := by
  induction fuel generalizing row? res left done with
  | zero =>
    have hnil : left = [] := List.eq_nil_of_length_eq_zero (by omega)
    simp only [hnil, fetchAllLoop, List.map_nil, List.append_nil]
  | succ fuel ih =>
    cases row? with
    | none =>
      simp only [Option.toList_none, Option.isSome_none, Bool.false_eq_true, if_false, List.append_nil] at hleft
      simp only [hleft, fetchAllLoop, List.map_nil, List.append_nil]
    | some row =>
      simp only [Option.toList_some, Option.isSome_some, if_true, List.singleton_append] at hleft
      rw [hleft, List.length_cons] at hfuel hint
      have hlengths : (mysqlFetchRow res).2.lengths = res.lengths := by
        unfold mysqlFetchRow
        split <;> rfl
      have hrest : res.remaining = (mysqlFetchRow res).1.toList ++
          (if (mysqlFetchRow res).1.isSome then (mysqlFetchRow res).2.remaining else []) := by
        rcases hr : res.remaining with _ | ⟨row', rest⟩ <;> simp [mysqlFetchRow, hr]
      set value := resultToTable atof numcols fields row res.lengths alpha with hvalue
      have hstep := ih (done ++ [value]) hrest (by omega)
        (by rw [List.length_append, List.length_singleton]; omega)
      rw [hlengths, List.length_append, List.length_singleton] at hstep
      rw [fetchAllLoop, hleft, rownum_toInt (by omega), ← hvalue]
      push_cast
      rw [listTable_snoc]
      have hnum : BitVec.ofNat 32 (done.length + 1) + 1#32 = BitVec.ofNat 32 (done.length + 1 + 1) :=
        (BitVec.ofNat_add (done.length + 1) 1).symm
      rw [hnum, hstep, List.map_cons, List.append_assoc, List.singleton_append]

/-- No row is stored under a key that is no `int`. -/
theorem fetchAllLoop_unreached {fuel : ℕ} {row? : Option MysqlRow} {res : MysqlRes}
    {rownum : BitVec 32} {t : RowTable} {k : ℤ} (hk : ∀ b : BitVec 32, b.toInt ≠ k) :
    fetchAllLoop atof numcols fields alpha fuel row? res rownum t k = t k := by
  induction fuel generalizing row? res rownum t with
  | zero => rfl
  | succ fuel ih =>
    cases row? with
    | none => rfl
    | some row => rw [fetchAllLoop, ih, Function.update_of_ne (hk rownum).symm]

end

/-! ## Agreement -/

section

variable {reg : Registry} {cur : Cursor} {res : MysqlRes} {first : MysqlRow} {later : List MysqlRow}
  {opt : LuaValue}

/-- `cur:fetchAll(opt)` with a row left. -/
theorem cursorFetchAll_row (hres : cur.myRes = some res) (hall : cur.fetchAll = true)
    (hcols : 0 < cur.numcols) (hrem : res.remaining = first :: later) :
    (cursorFetchAll atof reg cur opt).1 =
      .ok (some (fetchAllLoop atof cur.numcols res.fields (alphaIdx opt) (later.length + 1) (some first)
        (res.advance first later) 1 fun _ => none)) := by
  obtain ⟨c1, h1, hn1, hres1⟩ := Cursor.fetchRow_row hres hrem
  have hf := Cursor.fetchFields_fields hres1
  have hres2 : c1.fetchFields.myRes = some { res with remaining := later, currentRow := some first } := hres1
  obtain ⟨c3, h3, hn3, hres3⟩ := Cursor.fetchLengths_row hres2 rfl
  have hf3 : c3.fields = some res.fields := by
    have : c1.fetchFields.fetchLengths.2.fields = c1.fetchFields.fields := rfl
    rw [h3] at this
    rw [this, hf]
  have hn3' : c3.numcols = cur.numcols := by rw [hn3, ← hn1]; rfl
  unfold cursorFetchAll
  rw [if_neg (by simp [hres]), if_neg (by simp [hall])]
  simp only [h1, hn1, if_neg (show ¬ cur.numcols = 0 by omega), h3, hf3, hres3, hn3']
  rfl

theorem cursorFetchAll_rows (hres : cur.myRes = some res) (hall : cur.fetchAll = true)
    (hcols : 0 < cur.numcols) (hrem : res.remaining = first :: later) (hint : later.length + 1 < 2 ^ 31) :
    (cursorFetchAll atof reg cur opt).1 =
      .ok (some (listTable ((first :: later).map (tableAs atof cur res opt first)))) := by
  rw [cursorFetchAll_row hres hall hcols hrem]
  have hempty : (fun _ => none : RowTable) = listTable [] := by
    funext k
    simp [listTable]
  rw [hempty]
  have hloop : fetchAllLoop atof cur.numcols res.fields (alphaIdx opt) (later.length + 1) (some first)
      (res.advance first later) 1 (listTable []) =
      listTable ([] ++ (first :: later).map (tableAs atof cur res opt first)) :=
    fetchAllLoop_rows [] rfl (le_refl _) (by rw [List.length_nil, List.length_cons]; omega)
  rw [hloop, List.nil_append]

/-- The two ways to read the rows that are left give the same list. -/
def Cursor.FetchAllAgrees (atof : List UInt8 → UInt64) (room : ℕ) (reg : Registry) (cur : Cursor)
    (opt : LuaValue) : Prop :=
  ∃ rows fuel, fetchUntilNothing atof room opt fuel cur = some rows ∧
    (cursorFetchAll atof reg cur opt).1 = .ok (some (listTable rows))

/-- Wherever a later row shows text in a column, the first row has the same length there. -/
def SameLengths (numcols : ℕ) (fields : ℕ → MysqlField) (alpha : Bool) (first : MysqlRow)
    (later : List MysqlRow) : Prop :=
  ∀ row ∈ later, ∀ i, Visible (fieldKey alpha fields) numcols i → (fields i).type.copied = true →
    ∀ cell ∈ row i, first.length i = cell.data.length

theorem sameLengths_iff (atof : List UInt8 → UInt64) :
    SameLengths cur.numcols res.fields (alphaIdx opt) first later ↔
      (first :: later).map (tableAs atof cur res opt first) =
        (first :: later).map (ownTable atof cur res opt) := by
  unfold SameLengths
  rw [List.map_inj_left, List.forall_mem_cons]
  constructor
  · intro h
    refine ⟨rfl, fun row hrow => resultToTable_eq_iff.2 ?_⟩
    intro i hi hc cell hcell
    rw [h row hrow i hi hc cell hcell, MysqlRow.length, Option.mem_def.1 hcell]
    rfl
  · rintro ⟨-, h⟩ row hrow i hi hc cell hcell
    rw [resultToTable_eq_iff.1 (h row hrow) i hi hc cell hcell, MysqlRow.length, Option.mem_def.1 hcell]
    rfl

/-- A key that `rownum` never has. -/
theorem no_rownum (b : BitVec 32) : b.toInt ≠ 2 ^ 31 := by
  have := b.toInt_lt
  intro h
  rw [h] at this
  norm_num at this

/-- **Bulk fetch agrees with row-by-row fetch** exactly when the columns fit the stack, the
row numbers fit an `int`, and no text differs in length from its column in the first row. -/
theorem Cursor.fetchAll_agrees_iff (hres : cur.myRes = some res) (hall : cur.fetchAll = true)
    (hcols : 0 < cur.numcols) (hrem : res.remaining = first :: later) :
    cur.FetchAllAgrees atof room reg opt ↔
      cur.numcols ≤ room ∧ later.length + 1 < 2 ^ 31 ∧
        SameLengths cur.numcols res.fields (alphaIdx opt) first later := by
  constructor
  · rintro ⟨rows, fuel, hfetch, hbulk⟩
    have hroom : cur.numcols ≤ room := by
      by_contra hfull
      rw [fetchUntilNothing_full hres hrem (by omega)] at hfetch
      cases hfetch
    have hrows := fetchUntilNothing_unique hfetch (fetchUntilNothing_rows hres hrem hroom)
    have hint : later.length + 1 < 2 ^ 31 := by
      by_contra hlong
      rw [cursorFetchAll_row hres hall hcols hrem] at hbulk
      have htable := congrFun (Option.some.inj (Except.ok.inj hbulk)) (2 ^ 31)
      rw [fetchAllLoop_unreached no_rownum, hrows] at htable
      have hkey : ((2 ^ 31 : ℤ)) = ((2 ^ 31 - 1 : ℕ) : ℤ) + 1 := by norm_num
      rw [hkey, listTable_succ, eq_comm, List.getElem?_eq_none_iff, List.length_map,
        List.length_cons] at htable
      omega
    refine ⟨hroom, hint, (sameLengths_iff atof).2 ?_⟩
    rw [cursorFetchAll_rows hres hall hcols hrem hint] at hbulk
    rw [listTable_inj (Option.some.inj (Except.ok.inj hbulk)), hrows]
  · rintro ⟨hroom, hint, hsame⟩
    refine ⟨_, _, fetchUntilNothing_rows hres hrem hroom, ?_⟩
    rw [cursorFetchAll_rows hres hall hcols hrem hint, (sameLengths_iff atof).1 hsame]

end

/-- A result with one text column, `"name"`; `none` is a `NULL`. -/
def namesRes (names : List (Option (List UInt8))) : MysqlRes where
  fields := fun _ => ⟨⟨[110, 97, 109, 101], by decide⟩, .varString⟩
  remaining := names.map fun name _ => name.map fun s => ⟨s, fun _ => 0⟩
  currentRow := none
  lengths := fun _ => 0

/-- Two names of one length, and a `NULL`. -/
theorem Cursor.fetchAll_agrees_names :
    (Cursor.create 3 (namesRes [some [97, 98], some [99, 100], none]) 1 true).FetchAllAgrees
      (fun _ => 0) 20 (.init 3) .nil := by
  refine (Cursor.fetchAll_agrees_iff rfl rfl (by decide) rfl).2 ⟨by decide, by decide, ?_⟩
  intro row hrow i _ _ cell hcell
  obtain ⟨name, hname, rfl⟩ := List.mem_map.1 hrow
  simp only [List.mem_cons, List.not_mem_nil, or_false] at hname
  rcases hname with rfl | rfl
  · obtain rfl := Option.some.inj hcell
    rfl
  · cases hcell

/-- The names `"a"` and `"bc"`: `fetchAll` reads one byte of the second. -/
theorem Cursor.fetchAll_cuts_second :
    ¬ (Cursor.create 3 (namesRes [some [97], some [98, 99]]) 1 true).FetchAllAgrees
      (fun _ => 0) 20 (.init 3) .nil := by
  rintro ⟨rows, fuel, hfetch, hbulk⟩
  have hrows := fetchUntilNothing_unique hfetch (fetchUntilNothing_rows rfl rfl (by decide))
  rw [cursorFetchAll_rows rfl rfl (by decide) rfl (by decide)] at hbulk
  have hsame := listTable_inj (Option.some.inj (Except.ok.inj hbulk))
  rw [hrows] at hsame
  have hlengths := (sameLengths_iff fun _ => 0).2 hsame
  have h := hlengths _ (List.mem_singleton_self _) 0
    ⟨by decide, fun j hj hj1 => absurd hj1 (Nat.not_lt.2 hj)⟩ rfl _ rfl
  cases h

end Qsf
