import Mathlib
import LineBasic.Program.Basic
import LineBasic.Proofs.ListedLine

/-!
# Loading a listing

A program that has been loaded from a text is loaded again from its listing.

* `Program.Orderly ProgramLine.Settled`: what holds of every program that has been loaded: its lines
  stand in ascending order, and each of them is what its listed text is read as.
* `loadFrom_settled`: loading gives such programs.
* `load_listing`: such a program is loaded from its listing, and the sources of its lines are listed
  as they are.
-/

namespace LineBasic.Text

/-! ## Texts without line ends -/

/-- No character ends a line. -/
def OneLine (cs : List Char) : Prop := ∀ c ∈ cs, isLineEnd c = false

theorem not_isLineEnd_of_not_isBlank {c : Char} (h : isBlank c = false) : isLineEnd c = false := by
  by_contra hl
  simp only [isLineEnd, Bool.not_eq_false, Bool.or_eq_true, Bool.and_eq_true, decide_eq_true_eq,
    beq_iff_eq] at hl
  simp only [isBlank, Bool.or_eq_false_iff, Bool.and_eq_false_iff, decide_eq_false_iff_not,
    beq_eq_false_iff_ne] at h
  omega

variable {cs ds : List Char}

theorem linesFrom_cons {c : Char} (h : isLineEnd c = false) (line : List Char) :
    linesFrom line (c :: cs) = linesFrom (c :: line) cs := by
  rw [linesFrom.eq_3 _ _ _ fun _ hc _ => absurd h (by simp [hc, isLineEnd]), h]
  rfl

theorem linesFrom_feed (line : List Char) :
    linesFrom line ('\n' :: cs) = String.ofList line.reverse :: linesFrom [] cs := by
  rw [linesFrom.eq_3 _ _ _ fun _ hc _ => absurd hc (by decide)]
  rfl

theorem linesFrom_line (h : OneLine cs) (line : List Char) :
    linesFrom line (cs ++ '\n' :: ds) = String.ofList (line.reverse ++ cs) :: linesFrom [] ds := by
  induction cs generalizing line with
  | nil => rw [List.nil_append, linesFrom_feed, List.append_nil]
  | cons c cs ih =>
    have hc : isLineEnd c = false := h c (by simp)
    rw [List.cons_append, linesFrom_cons hc, ih fun d hd => h d (by simp [hd])]
    simp

theorem linesFrom_last (h : OneLine cs) (line : List Char) (hne : line.reverse ++ cs ≠ []) :
    linesFrom line cs = [String.ofList (line.reverse ++ cs)] := by
  induction cs generalizing line with
  | nil =>
    rw [linesFrom, if_neg (by simpa using hne), List.append_nil]
  | cons c cs ih =>
    have hc : isLineEnd c = false := h c (by simp)
    rw [linesFrom_cons hc, ih (fun d hd => h d (by simp [hd])) _ (by simp)]
    simp

/-- Lines with line feeds between them are found again. -/
theorem lines_intercalate {ls : List String} (h : ∀ l ∈ ls, OneLine l.toList ∧ l.toList ≠ []) :
    lines (String.intercalate "\n" ls) = ls := by
  unfold lines
  rw [String.toList_intercalate]
  induction ls with
  | nil => rfl
  | cons l ls ih =>
    obtain ⟨hline, hne⟩ := h l (by simp)
    cases ls with
    | nil => simpa using linesFrom_last hline [] hne
    | cons k ls =>
      have hrest := ih fun m hm => h m (by simp [hm])
      rw [List.map_cons, List.map_cons, List.intercalate_cons_cons, List.append_assoc]
      rw [List.map_cons] at hrest
      have hfeed : "\n".toList = ['\n'] := rfl
      rw [hfeed, List.singleton_append, linesFrom_line hline]
      rw [hfeed] at hrest
      rw [hrest]
      simp

theorem linesFrom_oneLine {line cs : List Char} (h : OneLine line) :
    ∀ l ∈ linesFrom line cs, OneLine l.toList := by
  induction line, cs using linesFrom.induct with
  | case1 line hline => rw [linesFrom, if_pos hline]; simp
  | case2 line hline =>
    rw [linesFrom, if_neg hline]
    simpa [OneLine] using h
  | case3 line cs ih =>
    rw [linesFrom]
    intro l hl
    rcases List.mem_cons.mp hl with rfl | hl
    · simpa [OneLine] using h
    · exact ih (by simp [OneLine]) l hl
  | case4 line c cs hne hc ih =>
    rw [linesFrom.eq_3 _ _ _ hne, if_pos hc]
    intro l hl
    rcases List.mem_cons.mp hl with rfl | hl
    · simpa [OneLine] using h
    · exact ih (by simp [OneLine]) l hl
  | case5 line c cs hne hc ih =>
    rw [linesFrom.eq_3 _ _ _ hne, if_neg hc]
    refine ih fun d hd => ?_
    rcases List.mem_cons.mp hd with rfl | hd
    · simpa using hc
    · exact h d hd

theorem lines_oneLine (s : String) : ∀ l ∈ lines s, OneLine l.toList :=
  linesFrom_oneLine (by simp [OneLine])

end LineBasic.Text

namespace LineBasic.Lexer

open Listing (chars tailChars lineChars)
open Text (OneLine)

variable {column : Nat} {cs text : List Char} {found : Lexeme} {ts : List Token}

theorem oneLine_of_not_isBlank (h : ∀ c ∈ cs, Text.isBlank c = false) : OneLine cs :=
  fun c hc => Text.not_isLineEnd_of_not_isBlank (h c hc)

/-- Listed characters that are not those of the text end no line. -/
theorem Found.oneLine (h : Found column text found) (hc : OneLine text) :
    ∀ t ∈ found.tokens, OneLine (chars t) := by
  intro t ht
  cases h with
  | @number w v rest formed finished value stop =>
    obtain rfl := List.mem_singleton.mp ht
    rw [Listing.chars_number rfl]
    simp only [Token.ofText, String.toList_ofList]
    rw [flatMap_capital_chars formed]
    exact oneLine_of_not_isBlank formed.capital.not_isBlank
  | string inside =>
    obtain rfl := List.mem_singleton.mp ht
    intro c hm
    apply hc c
    simp only [chars, Listing.spelling, Token.ofText, String.toList_ofList, List.mem_cons,
      List.mem_append] at hm ⊢
    tauto
  | name formed free stop =>
    obtain rfl := List.mem_singleton.mp ht
    apply oneLine_of_not_isBlank
    simp only [chars, Listing.spelling, Token.ofText, String.toList_ofList]
    exact formed.capital.not_isBlank
  | @keyword k c cs head plain =>
    obtain rfl := List.mem_singleton.mp ht
    exact oneLine_of_not_isBlank (spelling_not_isBlank k)
  | @data c cs head fits =>
    rw [List.mem_cons, List.mem_singleton] at ht
    rcases ht with rfl | rfl
    · exact oneLine_of_not_isBlank (spelling_not_isBlank .DATA)
    · obtain ⟨rest, hrest, -⟩ := dataRun_append_self false ((c :: cs).drop 4)
      intro d hd
      apply hc d
      simp only [chars, Listing.spelling, Token.ofText, String.toList_ofList] at hd
      have hmem : d ∈ (c :: cs).drop 4 := by
        rw [hrest]
        exact List.mem_append_left _ hd
      exact List.mem_of_mem_drop hmem
  | @rem c cs head fits =>
    rw [List.mem_cons, List.mem_singleton] at ht
    rcases ht with rfl | rfl
    · exact oneLine_of_not_isBlank (spelling_not_isBlank .REM)
    · intro d hd
      simp only [chars, Listing.spelling, Token.ofText, String.toList_ofList] at hd
      exact hc d (List.mem_of_mem_drop hd)
  | blank blank => exact absurd ht (by simp)
  | apostrophe =>
    rw [List.mem_cons, List.mem_singleton] at ht
    rcases ht with rfl | rfl
    · intro d hd
      simp only [chars, Listing.spelling, Token.ofText] at hd
      exact hc d (by simp_all)
    · intro d hd
      simp only [chars, Listing.spelling, Token.ofText, String.toList_ofList] at hd
      exact hc d (List.mem_cons_of_mem _ hd)
  | @sign c cs kind sign stop =>
    obtain rfl := List.mem_singleton.mp ht
    by_cases hq : kind = .question
    · subst hq
      exact oneLine_of_not_isBlank (spelling_not_isBlank .PRINT)
    · intro d hd
      rw [chars, (@listed_of_sign? (.ofText kind column (String.singleton c)) c sign hq).1] at hd
      simp only [Token.ofText, String.toList_singleton, List.mem_singleton] at hd
      exact hc d (by simp [hd])
  | relation pair =>
    obtain rfl := List.mem_singleton.mp ht
    intro d hd
    simp only [chars, Listing.spelling, Token.ofText, String.toList_ofList] at hd
    exact hc d (by simp_all; tauto)

theorem scan_oneLine (h : scan column cs = .ok ts) (hc : OneLine cs) :
    ∀ t ∈ ts, OneLine (chars t) := by
  induction column, cs using scan.induct generalizing ts with
  | case1 column =>
    rw [scan] at h
    obtain rfl := Except.ok.inj h
    simp
  | case2 column c cs ih =>
    obtain ⟨found, rest, hfound, hrest, rfl⟩ := scan_cons_ok h
    intro t ht
    rcases List.mem_append.mp ht with ht | ht
    · exact hfound.oneLine hc t ht
    · exact ih found hrest
        (fun d hd => hc d (List.mem_cons_of_mem _ (List.mem_of_mem_drop hd))) t ht

theorem joinJumps_oneLine (h : ∀ t ∈ ts, OneLine (chars t)) :
    ∀ t ∈ joinJumps ts, OneLine (chars t) := by
  induction ts using joinJumps.induct with
  | case1 first second rest k hk ih =>
    rw [joinJumps, hk]
    intro t ht
    rcases List.mem_cons.mp ht with rfl | ht
    · exact oneLine_of_not_isBlank (spelling_not_isBlank k)
    · exact ih (fun u hu => h u (by simp [hu])) t ht
  | case2 first second rest hk ih =>
    rw [joinJumps, hk]
    intro t ht
    rcases List.mem_cons.mp ht with rfl | ht
    · exact h t (by simp)
    · exact ih (fun u hu => h u (List.mem_cons_of_mem _ hu)) t ht
  | case3 ts hts =>
    rw [joinJumps]
    · exact h
    · exact hts

theorem lineChars_oneLine (h : ∀ t ∈ ts, OneLine (chars t)) : OneLine (lineChars ts) := by
  induction ts with
  | nil => exact fun c hc => absurd hc (by simp [lineChars])
  | cons t ts ih =>
    intro c hc
    rw [Listing.lineChars_cons, Listing.tailChars_eq, List.mem_append, List.mem_append] at hc
    rcases hc with hc | hc | hc
    · exact h t (by simp) c hc
    · rw [List.eq_of_mem_replicate hc]
      decide
    · exact ih (fun u hu => h u (by simp [hu])) c hc

/-- The source of a line that was read from one line is one line. -/
theorem source_oneLine (h : tokenize cs = .ok ts) (hc : OneLine cs) :
    OneLine (Listing.source ts).toList := by
  have hlexed := (tokenize_apart h).lexed
  unfold tokenize at h
  cases hs : scan 1 (Text.dropEnd isReturn cs) with
  | error e => rw [hs] at h; exact absurd h (by simp [bind, Except.bind])
  | ok us =>
    rw [hs] at h
    obtain rfl := Except.ok.inj h
    have htokens :=
      joinJumps_oneLine (scan_oneLine hs fun c hm => hc c (Text.mem_of_mem_dropEnd hm))
    intro c hm
    rw [Listing.source, String.toList_ofList, ← lineChars_trimmed hlexed] at hm
    exact lineChars_oneLine htokens c (Text.mem_of_mem_dropEnd hm)

end LineBasic.Lexer

namespace LineBasic

open Text (OneLine)

/-- A line that its listed text is read as, where there is so much room. -/
structure ProgramLine.Parsed (room : Nat) (l : ProgramLine) : Prop where
  reads : Parser.parseLine room l.listed = .ok ⟨some l.number, l.statements, l.source⟩
  statements : l.statements ≠ []
  code : l.code = compile l.statements

/-- A line that its listed text is read as, where there is room enough. -/
def ProgramLine.Readable (l : ProgramLine) : Prop := ∃ room, l.Parsed room

/-- A line that its listed text is read as, and that no line end cuts in two. -/
structure ProgramLine.Settled (room : Nat) (l : ProgramLine) : Prop extends l.Parsed room where
  oneLine : OneLine l.source.toList

/-- A program in ascending order with a property of all its lines. -/
structure Program.Orderly (P : ProgramLine → Prop) (p : Program) : Prop where
  ascending : p.lines.Pairwise fun a b => a.number < b.number
  lines : ∀ l ∈ p.lines, P l

namespace Program

/-! ## Storing lines -/

variable {l : ProgramLine} {ls : List ProgramLine} {p q : Program}

theorem mem_of_mem_place {x : ProgramLine} (h : x ∈ place l ls) : x = l ∨ x ∈ ls := by
  induction ls with
  | nil => exact Or.inl (List.mem_singleton.mp h)
  | cons y ys ih =>
    unfold place at h
    split at h
    · exact List.mem_cons.mp h
    · split at h
      · rcases List.mem_cons.mp h with rfl | h
        · exact Or.inl rfl
        · exact Or.inr (List.mem_cons_of_mem _ h)
      · rcases List.mem_cons.mp h with rfl | h
        · exact Or.inr List.mem_cons_self
        · exact (ih h).imp id (List.mem_cons_of_mem _)

theorem place_ascending (h : ls.Pairwise fun a b => a.number < b.number) :
    (place l ls).Pairwise fun a b => a.number < b.number := by
  induction ls with
  | nil => exact List.pairwise_singleton _ _
  | cons y ys ih =>
    obtain ⟨hy, hys⟩ := List.pairwise_cons.mp h
    unfold place
    split
    · rename_i hlt
      refine List.pairwise_cons.mpr ⟨fun x hx => ?_, h⟩
      rcases List.mem_cons.mp hx with rfl | hx
      · exact hlt
      · exact hlt.trans (hy x hx)
    · split
      · rename_i heq
        exact List.pairwise_cons.mpr ⟨fun x hx => heq ▸ hy x hx, hys⟩
      · refine List.pairwise_cons.mpr ⟨fun x hx => ?_, ih hys⟩
        rcases mem_of_mem_place hx with rfl | hx
        · omega
        · exact hy x hx

theorem place_last (h : ∀ x ∈ ls, x.number < l.number) : place l ls = ls ++ [l] := by
  induction ls with
  | nil => rfl
  | cons y ys ih =>
    have hy := h y List.mem_cons_self
    unfold place
    rw [if_neg (by omega), if_neg (by omega), ih fun x hx => h x (List.mem_cons_of_mem _ hx)]
    rfl

theorem Orderly.filter {P : ProgramLine → Prop} (h : p.Orderly P) (keeps : ProgramLine → Bool) :
    Orderly P ⟨p.lines.filter keeps⟩ :=
  ⟨h.ascending.filter _, fun l hl => h.lines l (List.mem_of_mem_filter hl)⟩

theorem Orderly.store {P : ProgramLine → Prop} {n : Nat} {source : String}
    {statements : List Statement} (h : Orderly P p)
    (hl : statements ≠ [] → P (.new n source statements)) :
    Orderly P (p.store n source statements) := by
  unfold Program.store
  split
  · exact h.filter _
  · rename_i hne
    refine ⟨place_ascending h.ascending, fun x hx => ?_⟩
    rcases mem_of_mem_place hx with rfl | hx
    · exact hl (by simpa using hne)
    · exact h.lines x hx

/-- A numbered line that has been read is read again from its listing. -/
theorem parsed_of_parseLine {room : Nat} {raw : String} {s : SourceLine} {n : Nat}
    (h : Parser.parseLine room raw = .ok s) (hn : s.number = some n) (hne : s.statements ≠ []) :
    (ProgramLine.new n s.source s.statements).Parsed room := by
  refine ⟨?_, hne, rfl⟩
  unfold ProgramLine.listed ProgramLine.new
  rw [Parser.parseLine_listedText h hn, ← hn]

theorem settled_of_parseLine {room : Nat} {raw : String} {s : SourceLine} {n : Nat}
    (h : Parser.parseLine room raw = .ok s) (hn : s.number = some n) (hraw : OneLine raw.toList)
    (hne : s.statements ≠ []) : (ProgramLine.new n s.source s.statements).Settled room := by
  obtain ⟨-, -, rest, ts, hrest, htokens, hsource, -⟩ := Parser.parseLine_ok h hn
  refine ⟨parsed_of_parseLine h hn hne, ?_⟩
  change OneLine s.source.toList
  rw [hsource]
  exact Lexer.source_oneLine htokens fun c hc => hraw c (hrest c hc)

/-- **Loading gives settled programs.** -/
theorem loadFrom_settled {room index : Nat} {raws : List String}
    (h : loadFrom store room index p raws = .ok q) (hp : p.Orderly (ProgramLine.Settled (room - 1)))
    (hraws : ∀ raw ∈ raws, OneLine raw.toList) : q.Orderly (ProgramLine.Settled (room - 1)) := by
  induction raws generalizing index p with
  | nil => rwa [← Except.ok.inj h]
  | cons raw raws ih =>
    have hrest : ∀ r ∈ raws, OneLine r.toList := fun r hr => hraws r (List.mem_cons_of_mem _ hr)
    unfold loadFrom at h
    split at h
    · exact ih h hp hrest
    · split at h
      · exact absurd h (by simp)
      · exact absurd h (by simp)
      · rename_i s hs
        split at h
        · exact absurd h (by simp)
        · rename_i n hn
          exact ih h (hp.store (settled_of_parseLine hs hn (hraws raw List.mem_cons_self))) hrest

theorem load_settled {room : Nat} {text : String} (h : load room text = .ok p) :
    p.Orderly (ProgramLine.Settled (room - 1)) :=
  loadFrom_settled h ⟨.nil, by simp⟩ (Text.lines_oneLine text)

/-! ## Loading settled lines -/

theorem listed_head (l : ProgramLine) : ∃ c ds, l.listed.toList = c :: ds ∧ c.isDigit = true := by
  obtain ⟨c, ds, hd⟩ := List.exists_cons_of_ne_nil (Text.toString_ne_nil l.number)
  refine ⟨c, ds ++ ' ' :: l.source.toList, ?_, ?_⟩
  · rw [ProgramLine.listed, Parser.toList_listedText, hd, List.cons_append]
  · exact Text.isDigit_of_mem_toString (n := l.number) (by rw [hd]; simp)

theorem oneLine_listedText {source : String} (h : OneLine source.toList) (n : Nat) :
    OneLine (Parser.listedText n source).toList := by
  intro c hc
  rw [Parser.toList_listedText, List.mem_append, List.mem_cons] at hc
  rcases hc with hc | rfl | hc
  · exact Text.not_isLineEnd_of_not_isBlank (Text.not_isBlank_of_isDigit
      (Text.isDigit_of_isDigit (Text.isDigit_of_mem_toString hc)))
  · decide
  · exact h c hc

theorem oneLine_listed {room : Nat} (h : l.Settled room) : OneLine l.listed.toList :=
  oneLine_listedText h.oneLine l.number

/-- Settled lines behind those of a program are added to it. -/
theorem loadFrom_listed {room index : Nat} (hls : ∀ l ∈ ls, l.Settled (room - 1))
    (hasc : (p.lines ++ ls).Pairwise fun a b => a.number < b.number) :
    loadFrom store room index p (ls.map ProgramLine.listed) = .ok ⟨p.lines ++ ls⟩ := by
  induction ls generalizing index p with
  | nil => simp [loadFrom]
  | cons l ls ih =>
    have hl := hls l List.mem_cons_self
    obtain ⟨c, ds, hhead, hc⟩ := listed_head l
    have hblank : Text.isAllBlank l.listed = false := by
      unfold Text.isAllBlank
      rw [hhead, List.all_cons, Text.not_isBlank_of_isDigit (Text.isDigit_of_isDigit hc)]
      rfl
    have hlast : ∀ x ∈ p.lines, x.number < l.number := fun x hx =>
      (List.pairwise_append.mp hasc).2.2 x hx l List.mem_cons_self
    have hnew : ProgramLine.new l.number l.source l.statements = l := by
      rw [ProgramLine.new, ← hl.code]
    have hstore : p.store l.number l.source l.statements = ⟨p.lines ++ [l]⟩ := by
      unfold Program.store
      rw [if_neg (by simpa using hl.statements), hnew, place_last hlast]
    rw [List.map_cons, loadFrom, hblank, hl.reads]
    simp only [Bool.false_eq_true, if_false, hstore]
    rw [ih (fun x hx => hls x (List.mem_cons_of_mem _ hx)) (by simpa using hasc)]
    simp

theorem listingAll_eq (p : Program) : p.listingAll = p.lines.map ProgramLine.listed := by
  unfold listingAll listing linesIn
  rw [List.filter_eq_self.mpr (by simp [inRange])]

theorem oneLine_listingAll {room : Nat} (hp : p.Orderly (ProgramLine.Settled room)) :
    ∀ s ∈ p.listingAll, OneLine s.toList := by
  rw [listingAll_eq]
  intro s hs
  obtain ⟨l, hl, rfl⟩ := List.mem_map.mp hs
  exact oneLine_listed (hp.lines l hl)

theorem loadFrom_listingAll {room : Nat} (hp : p.Orderly (ProgramLine.Settled (room - 1))) :
    loadFrom store room 0 {} p.listingAll = .ok p := by
  rw [listingAll_eq]
  exact loadFrom_listed hp.lines hp.ascending

/-- **A listing is loaded as the program that it lists**: the text of a program that has been
loaded, one line for each of its lines, spells the same program, and the tokens of the source of
each line are listed as that source. -/
theorem load_listing {room : Nat} {text : String} (h : load room text = .ok p) :
    load room (String.intercalate "\n" p.listingAll) = .ok p ∧
      ∀ l ∈ p.lines, (Lexer.tokenize l.source.toList).map (Listing.render 1) = .ok l.source := by
  have hp := load_settled h
  constructor
  · have hlines : Text.lines (String.intercalate "\n" p.listingAll) = p.listingAll := by
      refine Text.lines_intercalate fun s hs => ?_
      rw [listingAll_eq] at hs
      obtain ⟨l, hl, rfl⟩ := List.mem_map.mp hs
      obtain ⟨c, ds, hhead, -⟩ := listed_head l
      exact ⟨oneLine_listed (hp.lines l hl), by simp [hhead]⟩
    unfold load
    rw [hlines, listingAll_eq]
    exact loadFrom_listed hp.lines hp.ascending
  · intro l hl
    obtain ⟨-, -, rest, ts, -, htokens, hsource, -⟩ := Parser.parseLine_ok (hp.lines l hl).reads rfl
    simp only at hsource
    have hapart := Lexer.tokenize_apart htokens
    rw [hsource, Listing.tokenize_source hapart]
    exact congrArg Except.ok (Listing.render_relistedLine hapart)

/-- Two lines in the wrong order, with small letters, a question mark and a remark that ends in
blanks. -/
theorem load_listing_two_lines :
    ∃ p, load 990 "20 go  to10\n10 ?a$;1.5:data x , y :'z  " = .ok p ∧
      p.listingAll = ["10 PRINT A$;1.5:DATA x , y :'z", "20 GOTO 10"] ∧
      load 990 (String.intercalate "\n" p.listingAll) = .ok p := by
  have h : (load 990 "20 go  to10\n10 ?a$;1.5:data x , y :'z  ").toOption.map listingAll =
      some ["10 PRINT A$;1.5:DATA x , y :'z", "20 GOTO 10"] := by decide +kernel
  cases hl : load 990 "20 go  to10\n10 ?a$;1.5:data x , y :'z  " with
  | error e => rw [hl] at h; exact absurd h (by simp [Except.toOption])
  | ok p =>
    rw [hl] at h
    exact ⟨p, rfl, Option.some.inj h, (load_listing hl).1⟩

end Program

end LineBasic
