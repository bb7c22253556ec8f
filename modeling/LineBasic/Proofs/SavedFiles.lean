import Mathlib
import LineBasic.Proofs.Reloading
import LineBasic.Storage.Shelf

/-!
# Files that are saved

Lines that are saved are read again as they were, and a save that fails writes no file.

* `Text.utf8?_toUTF8`: bytes that spell a text are read as the text.
* `Text.lines_feeds`: lines with a line feed after each are found again.
* `Disk.find_put`, `Disk.read_of_write`: what was written at the end of a path is found there.
* `Shelf.saves_save`: the main result.
-/

namespace LineBasic

namespace Text

/-! ## UTF-8 -/

section

variable {position bits more low high a : Nat} {b : UInt8} {bs : List UInt8} {c : Char}

theorem utf8From_cons (hlead : utf8Lead? b = some ⟨bits, more, low, high⟩)
    (htail : utf8Tail position b 1 bits low high more bs = .ok c) :
    utf8From position (b :: bs) = (utf8From (position + 1 + more) (bs.drop more)).map (c :: ·) := by
  rw [utf8From, hlead]
  simp only
  rw [htail]
  rfl

theorem toNat_byte (h : a < 256) : (UInt8.ofNat a).toNat = a :=
  UInt8.toNat_ofNat_of_lt' h

theorem utf8Lead?_one (h : a < 128) : utf8Lead? (UInt8.ofNat a) = some ⟨a, 0, 0, 0⟩ := by
  rw [utf8Lead?, toNat_byte (by omega), if_pos h]

theorem utf8Lead?_two (h : 2 ≤ a ∧ a < 32) :
    utf8Lead? (UInt8.ofNat (a + 192)) = some ⟨a, 1, 0x80, 0xBF⟩ := by
  rw [utf8Lead?, toNat_byte (by omega), if_neg (by omega), if_neg (by omega), if_pos (by omega),
    Nat.add_sub_cancel]

theorem utf8Lead?_three (h : a < 16) : utf8Lead? (UInt8.ofNat (a + 224)) =
    some ⟨a, 2, if a = 0 then 0xA0 else 0x80, if a = 13 then 0x9F else 0xBF⟩ := by
  rw [utf8Lead?, toNat_byte (by omega), if_neg (by omega), if_neg (by omega), if_neg (by omega),
    if_pos (by omega)]
  simp

theorem utf8Lead?_four (h : a < 5) : utf8Lead? (UInt8.ofNat (a + 240)) =
    some ⟨a, 3, if a = 0 then 0x90 else 0x80, if a = 4 then 0x8F else 0xBF⟩ := by
  rw [utf8Lead?, toNat_byte (by omega), if_neg (by omega), if_neg (by omega), if_neg (by omega),
    if_neg (by omega), if_pos (by omega)]
  simp

/-- A byte that follows gives six bits. -/
theorem utf8Tail_cons {seen : Nat} (h : a < 64) (hlow : low ≤ a + 128) (hhigh : a + 128 ≤ high) :
    utf8Tail position b seen bits low high (more + 1) (UInt8.ofNat (a + 128) :: bs) =
      utf8Tail position b (seen + 1) (bits * 64 + a) 0x80 0xBF more bs := by
  rw [utf8Tail, toNat_byte (by omega), if_pos (by simp [hlow, hhigh])]
  congr 1
  omega

end

/-- A character is read from its bytes, and the rest after them. -/
theorem utf8From_char (position : Nat) (c : Char) (rest : List UInt8) :
    utf8From position (String.utf8EncodeChar c ++ rest) =
      (utf8From (position + (String.utf8EncodeChar c).length) rest).map (c :: ·) := by
  have hvalid : c.val.toNat < 0xD800 ∨ (0xDFFF < c.val.toNat ∧ c.val.toNat < 0x110000) := c.valid
  have hchar : Char.ofNat c.val.toNat = c := Char.ofNat_toNat c
  unfold String.utf8EncodeChar
  generalize c.val.toNat = v at hvalid hchar
  subst hchar
  simp only
  -- one case for each number of bytes
  split_ifs with h1 h2 h3
  · exact utf8From_cons (utf8Lead?_one (by omega)) rfl
  · refine utf8From_cons (utf8Lead?_two (by omega)) ?_
    rw [List.append_eq, List.cons_append, utf8Tail_cons (by omega) (by omega) (by omega), utf8Tail]
    congr 2
    omega
  · refine utf8From_cons (utf8Lead?_three (by omega)) ?_
    rw [List.append_eq, List.cons_append, List.cons_append,
      utf8Tail_cons (by omega) (by split <;> omega) (by split <;> omega),
      utf8Tail_cons (by omega) (by omega) (by omega), utf8Tail]
    congr 2
    omega
  · refine utf8From_cons (utf8Lead?_four (by omega)) ?_
    rw [List.append_eq, List.cons_append, List.cons_append, List.cons_append,
      utf8Tail_cons (by omega) (by split <;> omega) (by split <;> omega),
      utf8Tail_cons (by omega) (by omega) (by omega), utf8Tail_cons (by omega) (by omega)
      (by omega), utf8Tail]
    congr 2
    omega

/-- So are characters from the bytes of all of them. -/
theorem utf8From_chars (position : Nat) (cs : List Char) :
    utf8From position (cs.flatMap String.utf8EncodeChar) = .ok cs := by
  induction cs generalizing position with
  | nil => rw [List.flatMap_nil, utf8From]
  | cons c cs ih =>
    rw [List.flatMap_cons, utf8From_char, ih]
    rfl

theorem toList_byteArray (bytes : ByteArray) : bytes.toList = bytes.data.toList := by
  have hloop : ∀ i r, ByteArray.toList.loop bytes i r = r.reverse ++ bytes.data.toList.drop i := by
    intro i r
    induction i, r using ByteArray.toList.loop.induct bytes with
    | case1 i r h ih =>
      have hi : i < bytes.data.toList.length := by simpa using h
      have hget : bytes.get! i = bytes.data.toList[i] := by
        rw [Array.getElem_toList]
        exact getElem!_pos bytes.data i hi
      rw [ByteArray.toList.loop, if_pos h, ih, List.drop_eq_getElem_cons hi, hget]
      simp
    | case2 i r h =>
      rw [ByteArray.toList.loop, if_neg h, List.drop_eq_nil_of_le (by simpa using h),
        List.append_nil]
  exact hloop 0 []

/-- The bytes of a text are those of its characters. -/
theorem toList_toUTF8 (s : String) : s.toUTF8.toList = s.toList.flatMap String.utf8EncodeChar := by
  rw [toList_byteArray, String.toUTF8_eq_toByteArray, ← String.utf8Encode_toList]
  exact List.toList_data_toByteArray

/-- **Bytes that spell a text are read as the text.** -/
theorem utf8?_toUTF8 (s : String) : utf8? s.toUTF8 = .ok s := by
  rw [utf8?, toList_toUTF8, utf8From_chars]
  change Except.ok (String.ofList s.toList) = _
  rw [String.ofList_toList]

/-! ## Line feeds -/

/-- Lines as one text, with a line feed after each. -/
def feeds (ls : List String) : String := String.join (ls.map (· ++ "\n"))

theorem toList_feeds (ls : List String) :
    (feeds ls).toList = ls.flatMap fun l => l.toList ++ ['\n'] := by
  unfold feeds
  induction ls with
  | nil => rfl
  | cons l ls ih => simp [String.join_cons, ih]

/-- Lines with a line feed after each are found again. -/
theorem lines_feeds {ls : List String} (h : ∀ l ∈ ls, OneLine l.toList) :
    lines (feeds ls) = ls := by
  rw [lines, toList_feeds]
  induction ls with
  | nil => rfl
  | cons l ls ih =>
    rw [List.flatMap_cons, List.append_assoc, List.singleton_append, linesFrom_line (h l (by simp)),
      ih fun k hk => h k (by simp [hk])]
    simp

theorem unifyLineEnds_eq {cs : List Char} (h : '\r' ∉ cs) : unifyLineEnds cs = cs := by
  induction cs using unifyLineEnds.induct with
  | case1 => rfl
  | case2 cs ih => simp at h
  | case3 c cs hne ih =>
    rw [List.mem_cons, not_or] at h
    rw [unifyLineEnds.eq_3 _ _ hne, if_neg (Ne.symm h.1), ih h.2]

/-- Such a text has no other line ends. -/
theorem unifyLineEnds_feeds {ls : List String} (h : ∀ l ∈ ls, OneLine l.toList) :
    unifyLineEnds (feeds ls).toList = (feeds ls).toList := by
  refine unifyLineEnds_eq fun hmem => ?_
  rw [toList_feeds] at hmem
  obtain ⟨l, hl, hmem⟩ := List.mem_flatMap.mp hmem
  rw [List.mem_append, List.mem_singleton] at hmem
  rcases hmem with hmem | hmem
  · exact absurd (h l hl _ hmem) (by decide)
  · exact absurd hmem (by decide)

end Text

/-! ## Disks -/

/-- Where a file is written. -/
def Found.place? : Found → Option Route
  | .file route _ | .vacant route => some route
  | .directory _ | .refused _ => none

namespace Disk

variable {d d' : Disk} {path : String} {route : Route} {bytes : ByteArray}

theorem bytes?_put_self (d : Disk) (route : Route) (bytes : ByteArray) :
    (d.put route bytes).bytes? route = some bytes := by
  have hgone : (d.files.filter fun f => f.1 != route).find? (fun f => f.1 == route) = none := by
    rw [List.find?_eq_none]
    intro f hf
    simpa using (List.mem_filter.mp hf).2
  simp [bytes?, put, hgone]

/-- A walk that ended where a file was then written ends at that file. -/
theorem walk_put {here : Route} {parts : List String}
    (h : (d.walk here parts).place? = some route) :
    (d.put route bytes).walk here parts = .file route bytes := by
  induction parts generalizing here with
  | nil => cases h
  | cons part rest ih =>
    -- writing a file makes no directory, so the walk goes the same way
    have hsame : ∀ there, (d.put route bytes).hasDirectory there = d.hasDirectory there :=
      fun _ => rfl
    simp only [walk, hsame] at h ⊢
    split_ifs at h ⊢ with hidle hup hlong hdirectory hlast
    · exact ih h
    · exact ih h
    · cases h
    · exact ih h
    · obtain rfl : here ++ [part] = route := by
        cases hbytes : d.bytes? (here ++ [part]) <;> rw [hbytes] at h <;> exact Option.some.inj h
      rw [bytes?_put_self]
    · cases hbytes : d.bytes? (here ++ [part]) <;> rw [hbytes] at h <;> cases h

theorem find_put (h : (d.find path).place? = some route) :
    (d.put route bytes).find path = .file route bytes := by
  unfold find at h ⊢
  split_ifs at h ⊢
  · cases h
  · cases h
  · cases h
  · exact walk_put h

theorem write_eq_ok (h : d.write path bytes = .ok d') :
    ∃ route, (d.find path).place? = some route ∧ d' = d.put route bytes := by
  unfold write at h
  split at h
  · rename_i hfind
    exact ⟨_, by rw [hfind]; rfl, (Except.ok.inj h).symm⟩
  · rename_i hfind
    exact ⟨_, by rw [hfind]; rfl, (Except.ok.inj h).symm⟩
  · cases h
  · cases h

theorem read_of_write (h : d.write path bytes = .ok d') : d'.read path = .ok bytes := by
  obtain ⟨route, hplace, rfl⟩ := write_eq_ok h
  rw [read, find_put hplace]

theorem files_putDirectory (d : Disk) (route : Route) : (d.putDirectory route).files = d.files := by
  unfold putDirectory
  split <;> rfl

theorem files_makeDirectory (d : Disk) (path : String) :
    (d.makeDirectory path).2.files = d.files := by
  unfold makeDirectory
  split
  · exact files_putDirectory d _
  all_goals rfl

theorem files_makeDirectories (n : Nat) (d : Disk) (path : String) :
    (makeDirectories n d path).2.files = d.files := by
  induction n generalizing path with
  | zero => rfl
  | succ n ih =>
    have habove := ih (Path.directory path)
    unfold makeDirectories
    simp only
    split
    · exact files_makeDirectory d path
    · have hthen : ∀ d₁ : Disk, d₁.files = d.files →
          (if Path.name path = "." then (.ok (), d₁) else d₁.makeDirectory path).2.files =
          d.files := by
        intro d₁ hfiles
        split
        · exact hfiles
        · exact (files_makeDirectory d₁ path).trans hfiles
      split <;> rename_i hmade <;> rw [hmade] at habove
      · exact hthen _ habove
      · exact hthen _ habove
      · exact habove

end Disk

/-! ## Saving -/

namespace Shelf

variable {d d' : Disk} {path : String} {lines : List String}

theorem files_prepare (d : Disk) (path : String) : (prepare d path).2.files = d.files := by
  unfold prepare
  simp only
  have hmade := Disk.files_makeDirectories ((Path.directory path).length + 1) d
    (Path.directory path)
  generalize Disk.makeDirectories _ d (Path.directory path) = made at hmade ⊢
  split
  · rfl
  · exact hmade

theorem readText_of_read (hlines : ∀ l ∈ lines, Text.OneLine l.toList)
    (h : d.read path = .ok (linesBytes lines)) :
    d.readText path = .ok (Text.feeds lines) := by
  have hbytes : Text.utf8? (linesBytes lines) = .ok (Text.feeds lines) :=
    Text.utf8?_toUTF8 (Text.feeds lines)
  rw [Disk.readText, h]
  simp only
  rw [hbytes]
  simp only
  rw [Text.unifyLineEnds_feeds hlines, String.ofList_toList]

/-- How saving ends: no file is written, or the lines can be read at the path that is given. -/
inductive Saves (d : Disk) (lines : List String) : Except Fault String × Disk → Prop where
  | fails {f : Fault} {d' : Disk} (files : d'.files = d.files) : Saves d lines (.error f, d')
  | saved {path : String} {d' : Disk} (text : d'.readText path = .ok (Text.feeds lines)) :
      Saves d lines (.ok path, d')

/-- **Saving fails without a trace in the files, or saves what is read again.** -/
theorem saves_save (d : Disk) (disks : List String) (name : String) (overwrite : Bool)
    (hlines : ∀ l ∈ lines, Text.OneLine l.toList) :
    Saves d lines (save d disks name lines overwrite) := by
  unfold save
  cases checkName name with
  | error e => exact .fails rfl
  | ok name =>
    simp only
    generalize savePath disks name = path
    have hfiles := files_prepare d path
    split_ifs
    · exact .fails rfl
    · exact .fails rfl
    · cases hprepare : prepare d path with
      | mk r d₁ =>
        rw [hprepare] at hfiles
        cases r with
        | error f => exact .fails hfiles
        | ok u =>
          cases hwrite : d₁.write path (linesBytes lines) with
          | error e => simpa only [hwrite] using Saves.fails hfiles
          | ok d' =>
            have hsaved := readText_of_read hlines (Disk.read_of_write hwrite)
            simpa only [hwrite] using Saves.saved hsaved

end Shelf

end LineBasic
