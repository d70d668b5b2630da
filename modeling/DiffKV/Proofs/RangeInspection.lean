/-
Which tables `DeleteFilesInRanges` looks at before they are dropped.

The loop over the levels leaves a level out by a test that asks for the
level with the number of the range instead. So the first range is tested
at level 0, whose files are never dropped, the second at level 1, and a
range behind the last level at a level that does not exist. Whether the
right tables are looked at depends on what those levels hold.
-/
import DiffKV.RangeDeletion
import DiffKV.Lib.Gather
import DiffKV.Open

namespace DiffKV

open Lib List Table

namespace Version

variable (v : Version) (includeEnd : Bool) (ranges : List BlobStorage.RangePtr) {level i : Nat}
  {range : BlobStorage.RangePtr}

-- ==== the property

/-- The level holds no file, or none the range overlaps. -/
def Untouched (level : Nat) (range : BlobStorage.RangePtr) : Prop :=
  (v.levelFiles[level]?).getD [] = [] ∨ v.overlapInLevel level range = false

/-- The table is looked at once it is among the clean inputs of a range. -/
def Takes (range : BlobStorage.RangePtr) (file : FileMetaData) : Prop :=
  file.beingCompacted = false ∧ (includeEnd = true ∨ v.endsAt range file = false)

/-- The table is one of those to be dropped: a file of a level from 1 on
among the clean inputs of a range. -/
def Drops (file : FileMetaData) : Prop :=
  ∃ range ∈ ranges, ∃ level, 1 ≤ level ∧ (∃ files, v.levelFiles[level]? = some files ∧ files ≠ [])
    ∧ file ∈ v.getCleanInputsWithinInterval level range
    ∧ v.Takes includeEnd range file

/-- The properties of the table cannot be had, and `s` is returned. -/
def Unreadable (file : FileMetaData) (s : Status) : Prop :=
  v.getTableProperties file = (s, none)
    ∨ s.isOk = false ∧ ∃ property, v.getTableProperties file = (s, some property)

/-- A level is skipped for a range only if it is untouched by it; and the
properties are collected of exactly the tables to be dropped, unless
those of one of them cannot be had. -/
def Inspects : Prop :=
  (∀ i range, ranges[i]? = some range → ∀ level, 1 ≤ level →
    level < v.numNonEmptyLevels → ∃ skip, v.skips i range = some skip
      ∧ (skip = true → v.Untouched level range))
  ∧ ((∃ props, v.collect includeEnd ranges = pure props
        ∧ ∀ name, props.contains name = true
          ↔ ∃ file, v.Drops includeEnd ranges file ∧ file.fname = name)
      ∨ ∃ s, v.collect includeEnd ranges = throw s
        ∧ ∃ file, v.Drops includeEnd ranges file ∧ v.Unreadable file s)

/-- What the test asks of the `i`-th range, for every level it stands
for: level `i` exists, and either it holds a file the range overlaps or
the level is untouched. -/
def Aligned : Prop :=
  ∀ i range, ranges[i]? = some range → ∀ level, 1 ≤ level → level < v.numNonEmptyLevels →
    i < v.levelFiles.length ∧ (¬ v.Untouched i range ∨ v.Untouched level range)

-- ==== the loops

variable {v includeEnd ranges}

theorem clean_untouched (h : v.Untouched level range) :
    v.getCleanInputsWithinInterval level range = [] := by
  refine eq_nil_iff_forall_not_mem.2 fun file hfile => ?_
  obtain ⟨⟨files, hfiles, hmem⟩, hoverlap⟩ := v.clean hfile
  rcases h with h | h
  · rw [hfiles, Option.getD_some] at h
    rw [h] at hmem
    cases hmem
  · rw [hoverlap] at h
    cases h

/-- The test asks whether level `i` is untouched. -/
theorem skips_eq (range : BlobStorage.RangePtr) (hi : i < v.levelFiles.length) :
    ∃ skip, v.skips i range = some skip ∧ (skip = true ↔ v.Untouched i range) := by
  refine ⟨_, by rw [skips, getElem?_eq_getElem hi]; rfl, ?_⟩
  unfold Untouched
  rw [getElem?_eq_getElem hi]
  simp

theorem contains_insert (props : TablePropertiesCollection) (name k : String)
    (property : Option Bytes) :
    (props.insert name property).contains k = true ↔ props.contains k = true ∨ name = k := by
  rw [contains_eq_isSome, contains_eq_isSome, lookup_insert]
  by_cases hk : k = name
  · simp [hk]
  · simp [hk, Ne.symm hk]

theorem gathers_readProperties (file : FileMetaData) :
    Gathers (v.readProperties · file) (file.fname = ·) (v.Unreadable file) := by
  intro props
  unfold readProperties Unreadable
  rcases v.getTableProperties file with ⟨s, _ | property⟩
  · exact .inr ⟨s, rfl, .inl rfl⟩
  · cases hs : s.isOk with
    | true =>
      refine .inl ⟨props.insert file.fname property, by simp [hs], ?_⟩
      intro k
      exact contains_insert ..
    | false => exact .inr ⟨s, by simp [hs], .inr ⟨hs, property, rfl⟩⟩

theorem gathers_collectFile (range : BlobStorage.RangePtr) (file : FileMetaData) :
    Gathers (v.collectFile includeEnd range · file)
      (fun name => v.Takes includeEnd range file ∧ file.fname = name)
      (fun s => v.Takes includeEnd range file ∧ v.Unreadable file s) := by
  by_cases htakes : v.Takes includeEnd range file
  case neg =>
    have hpure : (v.collectFile includeEnd range · file) = pure := by
      unfold collectFile
      unfold Takes at htakes
      cases hb : file.beingCompacted with
      | true => rfl
      | false =>
        rw [hb] at htakes
        simp only [true_and, not_or] at htakes
        simp [htakes.1, htakes.2]
    rw [hpure]
    exact Gathers.nothing fun k hk => htakes hk.1
  case pos =>
    intro props
    have hstep : v.collectFile includeEnd range props file
        = if props.contains file.fname then pure props else v.readProperties props file := by
      unfold collectFile
      obtain ⟨hb, hend⟩ := htakes
      rw [if_neg (by simp [hb]), if_neg (by rcases hend with h | h <;> simp [h])]
    dsimp only
    rw [hstep]
    cases hin : props.contains file.fname with
    | true =>
      -- the properties of the table are there already
      refine .inl ⟨props, rfl, fun name => (or_iff_left_of_imp ?_).symm⟩
      rintro ⟨-, rfl⟩
      exact hin
    | false =>
      exact (gathers_readProperties file).congr
        (fun _ => (and_iff_right htakes).symm) (fun _ hs => ⟨htakes, hs⟩) props

/-- One level for the `i`-th range: the clean inputs, whether or not the
level is skipped. -/
theorem gathers_collectLevel (hi : i < v.levelFiles.length)
    (h : ¬ v.Untouched i range ∨ v.Untouched level range) :
    Gathers (v.collectLevel includeEnd i range · level)
      (fun name => ∃ file ∈ v.getCleanInputsWithinInterval level range,
        v.Takes includeEnd range file ∧ file.fname = name)
      (fun s => ∃ file ∈ v.getCleanInputsWithinInterval level range,
        v.Takes includeEnd range file ∧ v.Unreadable file s) := by
  obtain ⟨skip, hskip, hiff⟩ := skips_eq range hi
  unfold collectLevel
  rw [hskip]
  cases skip with
  | false =>
    exact Gathers.foldlM fun file _ => gathers_collectFile range file
  | true =>
    have hnone := clean_untouched (h.resolve_left fun hn => hn (hiff.1 rfl))
    rw [hnone]
    exact Gathers.nothing fun k ⟨file, hfile, _⟩ => not_mem_nil hfile

theorem Aligned.gathers (h : v.Aligned ranges) :
    Gathers (fun props => ranges.zipIdx.foldlM (v.collectRange includeEnd) props)
      (fun name => ∃ file, v.Drops includeEnd ranges file ∧ file.fname = name)
      (fun s => ∃ file, v.Drops includeEnd ranges file ∧ v.Unreadable file s) := by
  have hloops : Gathers (fun props =>
      ranges.zipIdx.foldlM (v.collectRange includeEnd) props) _ _ :=
    Gathers.foldlM fun range hrange => Gathers.foldlM fun level hlevel => by
      obtain ⟨hlo, hhi⟩ := mem_range'_1.1 hlevel
      obtain ⟨hi, hor⟩ := h range.2 range.1 (mem_zipIdx_iff_getElem?.1 hrange) level hlo (by omega)
      exact gathers_collectLevel hi hor
  -- the files of the loops are those to be dropped
  have hdrops : ∀ P : FileMetaData → Prop,
      (∃ range ∈ ranges.zipIdx, ∃ level ∈ range' 1 (v.numNonEmptyLevels - 1),
        ∃ file ∈ v.getCleanInputsWithinInterval level range.1,
          v.Takes includeEnd range.1 file ∧ P file)
      ↔ ∃ file, v.Drops includeEnd ranges file ∧ P file := by
    intro P
    constructor
    · rintro ⟨range, hrange, level, hlevel, file, hfile, htakes, hP⟩
      obtain ⟨files, hfiles, hmem⟩ := (v.clean hfile).1
      refine ⟨file, ⟨range.1, ?_, level, (mem_range'_1.1 hlevel).1,
        ⟨files, hfiles, ne_nil_of_mem hmem⟩, hfile, htakes⟩, hP⟩
      exact mem_of_getElem? (mem_zipIdx_iff_getElem?.1 hrange)
    · rintro ⟨file, ⟨range, hrange, level, hlo, ⟨files, hfiles, hne⟩, hfile, htakes⟩, hP⟩
      obtain ⟨i, hi⟩ := mem_iff_getElem?.1 hrange
      have hhi := v.level_lt hfiles hne
      exact ⟨(range, i), mem_zipIdx_iff_getElem?.2 hi, level,
        mem_range'_1.2 ⟨hlo, by omega⟩, file, hfile, htakes, hP⟩
  exact hloops.congr (fun name => hdrops fun file => file.fname = name)
    (fun s => (hdrops fun file => v.Unreadable file s).1)

/-- **What is looked at.** The properties collected are those of the
tables to be dropped, and a level is skipped only where a range leaves it
untouched, exactly if for every range and every level from 1 on, the
level with the number of the range is there and either holds a file the
range overlaps or the level itself is untouched. -/
theorem inspects_iff : v.Inspects includeEnd ranges ↔ v.Aligned ranges := by
  constructor
  · rintro ⟨hskips, -⟩ i range hrange level hlo hhi
    obtain ⟨skip, hskip, huntouched⟩ := hskips i range hrange level hlo hhi
    have hi : i < v.levelFiles.length := by
      obtain ⟨files, hfiles, -⟩ := Option.map_eq_some_iff.1 hskip
      exact (List.getElem?_eq_some_iff.1 hfiles).1
    obtain ⟨skip', hskip', hiff⟩ := skips_eq range hi
    cases hskip.symm.trans hskip'
    refine ⟨hi, ?_⟩
    by_cases h : v.Untouched i range
    · exact .inr (huntouched (hiff.2 h))
    · exact .inl h
  · intro h
    refine ⟨fun i range hrange level hlo hhi => ?_, ?_⟩
    · obtain ⟨hi, hor⟩ := h i range hrange level hlo hhi
      obtain ⟨skip, hskip, hiff⟩ := skips_eq range hi
      exact ⟨skip, hskip, fun hs => hor.resolve_left fun hn =>
        hn (hiff.1 hs)⟩
    · rcases h.gathers empty with ⟨props, hrun, hkeys⟩ | hstop
      · refine .inl ⟨props, hrun, fun name => ?_⟩
        rw [hkeys]
        simp [Table.contains]
      · exact .inr hstop

end Version

/-- A table that ends at 3. -/
def tableToThree : FileMetaData where
  fname := "000007.sst"
  largest := .byte 3

/-- A version with this table alone, at level 1, and every range over
it. -/
def levelOneOnly : Version where
  levelFiles := [[], [tableToThree]]
  numNonEmptyLevels := 2
  overlapInLevel level _ := level == 1
  getCleanInputsWithinInterval level _ :=
    if level = 1 then [tableToThree] else []
  getTableProperties _ := (.ok, some none)
  level_lt {level files} h hne := by
    rcases level with _ | _ | level
    · cases h
      exact absurd rfl hne
    · decide
    · cases h
  clean {level range file} h := by
    split at h
    case isTrue hlevel =>
      subst hlevel
      exact ⟨⟨_, rfl, h⟩, rfl⟩
    case isFalse => cases h

/-- The only range is tested at level 0, which is empty: the table at
level 1 is to be dropped and not looked at. -/
theorem levelOneOnly_not_inspected :
    levelOneOnly.Drops true [⟨some (.byte 1), some (.byte 4)⟩] tableToThree
      ∧ levelOneOnly.collect true [⟨some (.byte 1), some (.byte 4)⟩] = pure Table.empty
      ∧ ¬ levelOneOnly.Inspects true [⟨some (.byte 1), some (.byte 4)⟩] := by
  have hdrops : levelOneOnly.Drops true [⟨some (.byte 1), some (.byte 4)⟩] tableToThree :=
    ⟨_, mem_singleton_self _, 1, le_refl 1, ⟨_, rfl, by decide⟩,
      mem_singleton_self _, rfl, .inl rfl⟩
  refine ⟨hdrops, rfl, ?_⟩
  rintro ⟨-, ⟨props, hprops, hkeys⟩ | ⟨s, hstop, -⟩⟩
  · cases hprops
    have hin := (hkeys tableToThree.fname).2 ⟨_, hdrops, rfl⟩
    cases hin
  · cases hstop

end DiffKV
