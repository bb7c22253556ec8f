import Mathlib
import LineBasic.Proofs.LoadOutcomes
import LineBasic.Proofs.ProgramMap

/-!
# Patches replace lines

Patching overrides a program line by line. Of all patches for a number the last one counts, and a
number without a patch keeps its line. Patches that were read from a file can fail only with an
error of the disk, and what they make is the listing of a program that is loaded from it again.

* `Lexer.feed_of_tokenize_crash`, `Parser.feed_of_parseLine_listed_crash`: reading a line crashes at
  a line feed only, or at a number with too many digits.
* `Library.lastPatch?`, `Library.patchedLine`: what the patches make of a line.
* `Library.Overrides`, `Library.overrides_patchProgram`: the patched program, number by number.
* `Library.Readable`: what patches from a file satisfy.
* `Library.applyPatches_overrides`: the main result.
-/

namespace LineBasic

theorem exists_of_toOption {ε α β : Type} {x : Except ε α} {g : α → β} {b : β}
    (h : x.toOption.map g = some b) :
    ∃ a, x = .ok a ∧ g a = b := by
  cases x with
  | error e => cases h
  | ok a => exact ⟨a, rfl, Option.some.inj h⟩

/-! ## When reading a line crashes -/

namespace Lexer

variable {column ending : Nat} {c : Char} {cs : List Char} {crash : Crash}

theorem feed_of_lexeme_crash (h : lexeme column ending c cs = .error (.crash crash)) :
    c = '\n' := by
  unfold lexeme at h
  split at h
  · unfold number at h
    split at h
    · cases h
    · split at h <;> cases h
  · split_ifs at h
    · unfold stringLexeme at h
      simp only at h
      split at h <;> cases h
    · unfold signLexeme at h
      split at h
      · cases h
      · split at h
        · cases h
        · split at h
          · assumption
          · cases h

theorem feed_of_scan_crash (h : scan column cs = .error (.crash crash)) : '\n' ∈ cs := by
  induction column, cs using scan.induct with
  | case1 column =>
    rw [scan] at h
    cases h
  | case2 column c cs ih =>
    rw [scan] at h
    cases hfound : lexeme column (column + 1 + cs.length) c cs with
    | error f =>
      rw [hfound] at h
      obtain rfl := Except.error.inj h
      exact feed_of_lexeme_crash hfound ▸ List.mem_cons_self
    | ok found =>
      rw [hfound] at h
      cases hrest : scan (column + 1 + found.more) (cs.drop found.more) with
      | error f =>
        simp only [hrest, bind, Except.bind] at h
        obtain rfl := Except.error.inj h
        exact List.mem_cons_of_mem _ (List.mem_of_mem_drop (ih found hrest))
      | ok rest =>
        simp only [hrest, bind, Except.bind] at h
        cases h

theorem feed_of_tokenize_crash (h : tokenize cs = .error (.crash crash)) : '\n' ∈ cs := by
  unfold tokenize at h
  cases hscan : scan 1 (Text.dropEnd isReturn cs) with
  | error f =>
    rw [hscan] at h
    obtain rfl := Except.error.inj h
    exact Text.mem_of_mem_dropEnd (feed_of_scan_crash hscan)
  | ok ts =>
    rw [hscan] at h
    cases h

end Lexer

namespace Parser

/-- A text behind a number crashes the reader at a line feed only, if the number is not too long. -/
theorem feed_of_parseLine_listed_crash {room n : Nat} {b : String} {crash : Crash}
    (h : parseLine room (listedText n b) = .error (.crash crash))
    (hdigits : (toString n).length ≤ Text.longestDecimal) :
    '\n' ∈ b.toList := by
  by_cases hrange : 1 ≤ n ∧ n ≤ maxLineNumber
  · rw [parseLine_listed room hrange.1 hrange.2] at h
    cases htokens : Lexer.tokenize (Text.dropEnd Lexer.isReturn b.toList) with
    | error f =>
      rw [htokens] at h
      cases f with
      | error e => cases h
      | crash c => exact Text.mem_of_mem_dropEnd (Lexer.feed_of_tokenize_crash htokens)
    | ok ts =>
      rw [htokens] at h
      simp only at h
      cases hparse : parseTokens (room - 1) ((listedText n (Listing.source ts)).toList.length + 1)
          ((Listing.relistedLine ts).map (·.shift ((toString n).length + 1))) <;>
            rw [hparse] at h <;> cases h
  · unfold parseLine at h
    simp only [dropEnd_listedText, lineStart?_listed, number_listed] at h
    rw [if_neg (by rw [String.length_toList]; omega), if_pos (by simp; omega)] at h
    cases h

end Parser

namespace Text

theorem ofDigits_lt {ds : List Nat} (h : ∀ d ∈ ds, d < 10) : ofDigits ds < 10 ^ ds.length := by
  unfold ofDigits
  induction ds using List.reverseRecOn with
  | nil => simp
  | append_singleton ds d ih =>
    have hd : d < 10 := h d (by simp)
    have hlt := ih fun x hx => h x (by simp [hx])
    rw [List.foldl_append, List.length_append, List.length_singleton, pow_succ]
    simp only [List.foldl_cons, List.foldl_nil]
    omega

/-- A number that was read has at most as many digits as it was written with. -/
theorem length_toString_digitsValue {cs : List Char} (hne : cs ≠ []) :
    (toString (digitsValue cs)).length ≤ cs.length := by
  have hdigits : ∀ d ∈ cs.filterMap digitValue?, d < 10 := by
    intro d hd
    obtain ⟨c, -, hc⟩ := List.mem_filterMap.mp hd
    obtain ⟨z, hz, rfl⟩ := Option.map_eq_some_iff.mp hc
    have hnear := List.find?_some hz
    simp only [Bool.and_eq_true, decide_eq_true_eq] at hnear
    omega
  have hlt : digitsValue cs < 10 ^ cs.length :=
    lt_of_lt_of_le (ofDigits_lt hdigits)
      (Nat.pow_le_pow_right (by decide) (List.length_filterMap_le _ _))
  rw [← String.length_toList, Nat.toString_eq_ofList_toDigits, String.toList_ofList,
    Nat.length_toDigits_le_iff (by decide) (List.length_pos_iff.mpr hne)]
  exact hlt

end Text

namespace Library

/-! ## What patches make of a line -/

/-- The text of the last patch for a number. -/
def lastPatch? (patches : List (Nat × String)) (n : Nat) : Option String :=
  (patches.reverse.find? fun patch => patch.1 = n).map Prod.snd

/-- What a patch puts under its number: nothing if its text is empty or holds no statements, and
else the line that the text is read as. -/
def patchedLine (room n : Nat) (text : String) : Option (String × List Statement) :=
  if text.isEmpty then none
  else
    match Parser.parseLine room (Parser.listedText n text) with
    | .ok l => Program.held l.source l.statements
    | .error _ => none

/-- A program with some of its lines replaced: under each number stands what the last patch for it
puts there, and what stood there before if there is none. -/
def Overrides (room : Nat) (patches : List (Nat × String)) (p q : Program) : Prop :=
  ∀ n, q.content n = match lastPatch? patches n with
    | some text => patchedLine room n text
    | none => p.content n

/-- A patch that cannot be read as a line. -/
def Unreadable (room : Nat) (patch : Nat × String) : Prop :=
  patch.2.isEmpty = false ∧ ∀ l, Parser.parseLine room (Parser.listedText patch.1 patch.2) ≠ .ok l

variable {room : Nat} {p q : Program} {patches : List (Nat × String)} {f : Fault}

theorem lastPatch?_cons (patch : Nat × String) (patches : List (Nat × String)) (n : Nat) :
    lastPatch? (patch :: patches) n =
      (lastPatch? patches n).or (if patch.1 = n then some patch.2 else none) := by
  unfold lastPatch?
  rw [List.reverse_cons, List.find?_append]
  cases patches.reverse.find? fun patch => patch.1 = n with
  | some found => rfl
  | none => by_cases hn : patch.1 = n <;> simp [hn]

/-- **Patches override lines**, if all of them can be read. -/
theorem overrides_patchProgram (h : patchProgram room p patches = .ok q) :
    Overrides room patches p q := by
  induction patches generalizing p with
  | nil =>
    obtain rfl := Except.ok.inj h
    exact fun n => rfl
  | cons patch rest ih =>
    obtain ⟨k, text⟩ := patch
    -- the program after the first patch has its line under that number
    obtain ⟨p₁, hrest, hfirst⟩ : ∃ p₁, patchProgram room p₁ rest = .ok q ∧
        ∀ n, p₁.content n = if k = n then patchedLine room k text else p.content n := by
      unfold patchProgram at h
      split at h
      · rename_i hempty
        refine ⟨_, h, fun n => ?_⟩
        rw [Program.content_erase, patchedLine, if_pos hempty]
      · rename_i hempty
        obtain ⟨l, hl, h⟩ := ok_of_bind h
        refine ⟨_, h, fun n => ?_⟩
        rw [Program.content_store, patchedLine, if_neg hempty, hl, Program.puts]
        split <;> rfl
    intro n
    rw [ih hrest n, lastPatch?_cons]
    cases lastPatch? rest n with
    | some text' => rfl
    | none =>
      rw [hfirst, Option.none_or]
      by_cases hn : k = n
      · simp [hn]
      · simp [hn]

/-- Patching fails at a patch that cannot be read. -/
theorem patchProgram_error (h : patchProgram room p patches = .error f) :
    ∃ patch ∈ patches, patch.2.isEmpty = false ∧
      Parser.parseLine room (Parser.listedText patch.1 patch.2) = .error f := by
  induction patches generalizing p with
  | nil => cases h
  | cons patch rest ih =>
    obtain ⟨k, text⟩ := patch
    unfold patchProgram at h
    split at h
    · obtain ⟨patch, hmem, hpatch⟩ := ih h
      exact ⟨patch, List.mem_cons_of_mem _ hmem, hpatch⟩
    · rename_i hempty
      cases hread : Parser.parseLine room (Parser.listedText k text) with
      | error f' =>
        rw [hread] at h
        obtain rfl := Except.error.inj h
        exact ⟨(k, text), List.mem_cons_self, by simpa using hempty, hread⟩
      | ok l =>
        rw [hread] at h
        obtain ⟨patch, hmem, hpatch⟩ := ih h
        exact ⟨patch, List.mem_cons_of_mem _ hmem, hpatch⟩

/-! ## Patches from a file -/

/-- Patches of one line each, with numbers of not too many digits: reading them does not crash. -/
structure Readable (patches : List (Nat × String)) : Prop where
  plain : Plain patches
  digits : ∀ patch ∈ patches, (toString patch.1).length ≤ Text.longestDecimal

theorem Readable.not_crash (h : Readable patches) {patch : Nat × String} (hpatch : patch ∈ patches)
    (crash : Crash) :
    Parser.parseLine room (Parser.listedText patch.1 patch.2) ≠ .error (.crash crash) := by
  intro hcrash
  have hfeed := Parser.feed_of_parseLine_listed_crash hcrash (h.digits patch hpatch)
  exact absurd (h.plain patch hpatch '\n' hfeed) (by decide)

variable {l : Library} {index : Nat} {line : String} {s s' : PatchState}

theorem digits_of_numberedPatch? {digits : List Char} {text : String}
    (h : numberedPatch? line = some (digits, text)) :
    digits ≠ [] := by
  unfold numberedPatch? at h
  simp only at h
  split at h
  · cases h
  · rename_i hne
    exact (Prod.mk.inj (Option.some.inj h)).1 ▸ fun hnil => hne hnil
  · rename_i hne
    split at h
    · exact (Prod.mk.inj (Option.some.inj h)).1 ▸ fun hnil => hne hnil
    · cases h

/-- A line of a patch file adds at most one patch, whose number has not too many digits. -/
theorem digits_of_readPatchLine (h : l.readPatchLine index line s = .ok s')
    (hs : ∀ patch ∈ s.patches, (toString patch.1).length ≤ Text.longestDecimal) :
    ∀ patch ∈ s'.patches, (toString patch.1).length ≤ Text.longestDecimal := by
  unfold readPatchLine at h
  split at h
  · rwa [← Except.ok.inj h]
  · split at h
    · cases hheader : l.readHeader index line s with
      | error e =>
        rw [hheader] at h
        cases h
      | ok s'' =>
        rw [hheader] at h
        obtain rfl := Except.ok.inj h
        rwa [patches_of_readHeader hheader]
    · split at h
      · cases h
      · rename_i digits text hpatch
        split at h
        · cases h
        · rename_i hlong
          rw [← Except.ok.inj h]
          intro patch hmem
          rcases List.mem_cons.mp hmem with rfl | hmem
          · exact (Text.length_toString_digitsValue (digits_of_numberedPatch? hpatch)).trans
              (not_lt.mp hlong)
          · exact hs patch hmem

/-- **Patches from a file are read without a crash.** -/
theorem readable_of_readPatchLines {file : String}
    (h : l.readPatchLines 0 {} (Text.lines file) = .ok s) :
    Readable s.patches.reverse := by
  have hdigits : ∀ {index : Nat} {s s' : PatchState} {lines : List String},
    l.readPatchLines index s lines = .ok s' →
      (∀ patch ∈ s.patches, (toString patch.1).length ≤ Text.longestDecimal) →
      ∀ patch ∈ s'.patches, (toString patch.1).length ≤ Text.longestDecimal := by
    intro index s s' lines h hs
    induction lines generalizing index s with
    | nil => rwa [← Except.ok.inj h]
    | cons line rest ih =>
      obtain ⟨s₁, hline, h⟩ := ok_of_bind h
      exact ih h (digits_of_readPatchLine hline hs)
  have hplain := plain_of_readPatchLines h (Text.lines_oneLine file) nofun
  exact ⟨fun patch hpatch => hplain patch (List.mem_reverse.mp hpatch),
    fun patch hpatch => hdigits h nofun patch (List.mem_reverse.mp hpatch)⟩

/-! ## The patched text -/

theorem isStorage_asPatchError (e : Error) :
    ∃ e', asPatchError (.error e) = .error e' ∧ e'.kind.isStorage = true := by
  simp only [asPatchError]
  split
  · rename_i hstorage
    exact ⟨e, rfl, hstorage⟩
  · exact ⟨_, rfl, rfl⟩

theorem checkCrc_eq_ok {crc : Option Int} (h : ∀ c ∈ crc, c = Checksum.ofLines p.listingAll) :
    checkCrc p crc = .ok () := by
  cases crc with
  | none => rfl
  | some c =>
    rw [checkCrc, h c rfl]
    simp

theorem applyPatches_eq {source : PatchedSource}
    (hload : Program.load (room - 1) source.text = .ok p)
    (hcrc : checkCrc p source.crc = .ok ()) : applyPatches room source =
      ((patchProgram (room - 1) p source.patches).map listingText).mapError asPatchError := by
  unfold applyPatches
  rw [hload]
  change (Except.map listingText
    (orFault (checkCrc p source.crc) >>= fun _ =>
      patchProgram (room - 1) p source.patches)).mapError _ = _
  rw [hcrc]
  rfl

/-- Programs that were loaded and have the same listing are the same. -/
theorem eq_of_listingAll (hp : p.Orderly (ProgramLine.Settled (room - 1)))
    (hq : q.Orderly (ProgramLine.Settled (room - 1))) (h : p.listingAll = q.listingAll) :
    p = q := by
  have hload := load_listingText hp
  rw [listingText, h, ← listingText, load_listingText hq] at hload
  exact (Except.ok.inj hload).symm

/-- **Patching replaces lines.** Whatever text can be loaded, with or without its checksum, and
whatever patches were read from a file: either a patch cannot be read as a line, and then the error
is one of the disk; or the text that comes out is the listing of the program in which the last patch
for a number stands in place of its line, and this program is what the text is loaded as. Another
text with the same listing is patched in the same way. -/
theorem applyPatches_overrides {room : Nat} {l : Library} {file : String} {s : PatchState}
    {source : PatchedSource} {p : Program} (hfile : l.readPatchLines 0 {} (Text.lines file) = .ok s)
    (hpatches : source.patches = s.patches.reverse)
    (hload : Program.load (room - 1) source.text = .ok p)
    (hcrc : ∀ c ∈ source.crc, c = Checksum.ofLines p.listingAll) :
    ((∃ e, applyPatches room source = .error (.error e) ∧ e.kind.isStorage = true ∧
        ∃ patch ∈ source.patches, Unreadable (room - 1) patch) ∨
      ∃ q, applyPatches room source = .ok (listingText q) ∧
        Overrides (room - 1) source.patches p q ∧
        Program.load room (listingText q) = .ok q) ∧
    ∀ text' p', Program.load (room - 1) text' = .ok p' → p'.listingAll = p.listingAll →
      applyPatches room { source with text := text' } = applyPatches room source := by
  have hreadable : Readable source.patches := hpatches ▸ readable_of_readPatchLines hfile
  have happly := applyPatches_eq hload (checkCrc_eq_ok hcrc)
  constructor
  · cases hpatched : patchProgram (room - 1) p source.patches with
    | ok q =>
      have hp := (Program.load_settled hload).imp fun l hl => hl.mono (Nat.sub_le (room - 1) 1)
      have hsettled := patchProgram_settled hpatched hp hreadable.plain
      rw [hpatched] at happly
      exact .inr ⟨q, happly, overrides_patchProgram hpatched, load_listingText hsettled⟩
    | error f =>
      obtain ⟨patch, hmem, hne, hread⟩ := patchProgram_error hpatched
      cases f with
      | crash c => exact absurd hread (hreadable.not_crash hmem c)
      | error e =>
        obtain ⟨e', hasError, hstorage⟩ := isStorage_asPatchError e
        rw [hpatched] at happly
        have hfails := happly.trans (congrArg Except.error hasError)
        refine .inl ⟨e', hfails, hstorage, patch, hmem, hne, fun line hline => ?_⟩
        cases hread.symm.trans hline
  · intro text' p' hload' hlisting
    obtain rfl :=
      eq_of_listingAll (Program.load_settled hload') (Program.load_settled hload) hlisting
    have happly' : applyPatches room { source with text := text' } = _ :=
      applyPatches_eq hload' (checkCrc_eq_ok hcrc)
    exact happly'.trans happly.symm

/-- A program of four lines, or the same in another order and spelling, with its checksum and the
patches of a file: one line is patched twice, one is removed, and one is left without statements. -/
def mended (text : String) : PatchedSource :=
  { text, patches := [(10, "?2"), (20, ""), (30, ":"), (10, "?3")], crc := some 2692496147 }

/-- The last patch for a line counts. -/
theorem applyPatches_overrides_mended :
    (∃ p q, Program.load 989 "10 PRINT 1\n20 END\n30 CLS\n40 STOP" = .ok p ∧
      Overrides 989 [(10, "?2"), (20, ""), (30, ":"), (10, "?3")] p q ∧
        Program.load 990 (listingText q) = .ok q ∧
      listingText q = "10 PRINT 3\n40 STOP\n") ∧
    applyPatches 990 (mended "40 stop\n30cls\n10 ?  1\n20 end\n10 ?1") =
      applyPatches 990 (mended "10 PRINT 1\n20 END\n30 CLS\n40 STOP") := by
  have hfile :
    (({} : Library).readPatchLines 0 {} (Text.lines "'\n10 ?2\n20\n 30  :\n10\t?3")).toOption.map
      PatchState.patches = some [(10, "?3"), (30, ":"), (20, ""), (10, "?2")] := by decide +kernel
  have hlisting : (Program.load 989 "10 PRINT 1\n20 END\n30 CLS\n40 STOP").toOption.map
    Program.listingAll =
      some ["10 PRINT 1", "20 END", "30 CLS", "40 STOP"] := by decide +kernel
  have hlisting' : (Program.load 989 "40 stop\n30cls\n10 ?  1\n20 end\n10 ?1").toOption.map
    Program.listingAll =
      some ["10 PRINT 1", "20 END", "30 CLS", "40 STOP"] := by decide +kernel
  have happly : applyPatches 990 (mended "10 PRINT 1\n20 END\n30 CLS\n40 STOP") =
      .ok "10 PRINT 3\n40 STOP\n" := by
    decide +kernel
  obtain ⟨s, hs, hpatches⟩ := exists_of_toOption hfile
  obtain ⟨p, hp, hlisted⟩ := exists_of_toOption hlisting
  obtain ⟨p', hp', hlisted'⟩ := exists_of_toOption hlisting'
  have hread : (mended "10 PRINT 1\n20 END\n30 CLS\n40 STOP").patches = s.patches.reverse := by
    rw [hpatches]
    rfl
  have hcrc : ∀ c ∈ (mended "10 PRINT 1\n20 END\n30 CLS\n40 STOP").crc, c =
      Checksum.ofLines p.listingAll := by
    intro c hc
    rw [hlisted, ← Option.some.inj hc]
    decide +kernel
  obtain ⟨hresult, hsame⟩ := @applyPatches_overrides 990 _ _ _ _ _ hs hread hp hcrc
  refine ⟨?_, hsame _ p' hp' (hlisted'.trans hlisted.symm)⟩
  obtain ⟨e, herror, -⟩ | ⟨q, hok, hoverrides, hload⟩ := hresult
  · cases happly.symm.trans herror
  · exact ⟨p, q, hp, hoverrides, hload, Except.ok.inj (hok.symm.trans happly)⟩

end Library

end LineBasic
