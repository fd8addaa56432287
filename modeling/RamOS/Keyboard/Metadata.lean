import RamOS.Keyboard.InPlace

/-!
# The description of a layout

A layout file describes itself by four lines `key=value` behind a line `[metadata]`, in any
order, with blanks around key and value, between empty lines, comments and lines with other
keys, and with either kind of line end. This file says that the four values come out as they
were written.
-/

namespace RamOS.Keyboard.Layouts

open ByteMemory CString TextLines

def Blanks (text : Bytes) : Prop := ∀ char ∈ text, isBlank char

structure Writable (limit : ℕ) (value : Bytes) : Prop where
  fits : value.length ≤ limit
  starts : ∀ char ∈ value.head?, ¬isBlank char
  ends : ∀ char ∈ value.getLast?, ¬isSpace char

/-- A line for a key, with blanks around the key and the value. -/
def IsEntry (key : MetadataKey) (value content : Bytes) : Prop :=
  ∃ lead gap indent trail, Blanks lead ∧ Blanks gap ∧ Blanks indent ∧ Blanks trail ∧
    content = lead ++ key.text ++ gap ++ '='.toUInt8 :: (indent ++ value ++ trail)

def IsHeading (content : Bytes) : Prop :=
  ∃ lead trail, Blanks lead ∧ Blanks trail ∧ content = lead ++ ascii "[metadata]" ++ trail

/-- Empty lines, comments, and lines with other keys. -/
inductive Filler : Bytes → Prop
  | blank {content : Bytes} (blanks : Blanks content) : Filler content
  | comment {lead rest : Bytes} (blanks : Blanks lead) : Filler (lead ++ '#'.toUInt8 :: rest)
  | otherKey {left right : Bytes} (noMark : '='.toUInt8 ∉ left)
      (other : ∀ key : MetadataKey, trim left ≠ key.text) : Filler (left ++ '='.toUInt8 :: right)

structure Describes (values : MetadataKey → Bytes) (contents : List Bytes) : Prop where
  arranged : ∃ before heading after, contents = before ++ heading :: after ∧
    (∀ content ∈ before, Filler content) ∧ IsHeading heading ∧
    (∀ content ∈ after, Filler content ∨ ∃ key, IsEntry key (values key) content) ∧
    ∀ key, ∃ content ∈ after, IsEntry key (values key) content

inductive Ending
  | lf
  | crlf
deriving DecidableEq

def Ending.text : Ending → Bytes
  | lf => ['\n'.toUInt8]
  | crlf => ['\r'.toUInt8, '\n'.toUInt8]

/-- The text of lines with their ends, and of a last line without one. -/
def render (ended : List (Bytes × Ending)) (last : Bytes) : Bytes :=
  ended.flatMap (fun line => line.1 ++ line.2.text) ++ last

section Lines

variable {parser : Parser} {content left right : Bytes}

theorem Blanks.isSpace {text : Bytes} (blanks : Blanks text) : ∀ char ∈ text, isSpace char :=
  fun char listed => isBlank_imp_isSpace (blanks char listed)

theorem Blanks.trim {text : Bytes} (blanks : Blanks text) : trim text = [] := by
  have stripped := @strip_append_left UInt8 isBlank Layouts.isSpace [] text blanks
  rwa [List.append_nil] at stripped

theorem readLine_concat_cr :
    parser.readLine (content ++ ['\r'.toUInt8]) = parser.readLine content := by
  have trimmed : trim (content ++ ['\r'.toUInt8]) = trim content := strip_concat _ (by decide)
  rw [Parser.readLine, trimmed, Parser.readLine]

theorem Filler.readLine (filler : Filler content) (noZero : 0 ∉ content)
    (outside : parser.inLayout = false) : parser.readLine content = parser := by
  cases filler with
  | blank blanks => exact readLine_skipped (classify_of_trim_nil blanks.trim)
  | @comment lead rest blanks =>
    apply readLine_skipped
    apply classify_comment
    rw [trim_mark (by decide), List.dropWhile_eq_nil_iff.mpr blanks]
    rfl
  | @otherKey left right noMark other =>
    by_cases starts : (left.dropWhile isBlank).headD '='.toUInt8 = '#'.toUInt8
    · apply readLine_skipped
      apply classify_comment
      rw [trim_mark (by decide), headD_append_cons, starts]
    · have leftNoZero : 0 ∉ left := fun listed => noZero (List.mem_append_left _ listed)
      rw [readLine_entry noMark noZero starts, Parser.enter,
        store_other (zero_notMem_trim leftNoZero) other]
      split
      next => rfl
      next => rw [if_neg (by rw [outside]; decide)]

theorem IsHeading.readLine (heading : IsHeading content) :
    parser.readLine content = { parser with inMetadata := true, inLayout := false } := by
  rcases heading with ⟨lead, trail, isLead, isTrail, rfl⟩
  have trimmed : trim (lead ++ ascii "[metadata]" ++ trail) = ascii "[metadata]" := by
    refine strip_append (by decide) isLead ?_ ?_ isTrail.isSpace
    all_goals
      rintro _ ⟨⟩
      decide
  rw [Parser.readLine, trimmed]
  rfl

theorem trim_padded {limit : ℕ} {indent value trail : Bytes} (writable : Writable limit value)
    (isIndent : Blanks indent) (isTrail : Blanks trail) :
    trim (indent ++ value ++ trail) = value := by
  by_cases empty : value = []
  · subst empty
    refine Blanks.trim fun char listed => ?_
    rw [List.append_nil, List.mem_append] at listed
    exact listed.elim (isIndent char) (isTrail char)
  · exact strip_append empty isIndent writable.starts writable.ends isTrail.isSpace

theorem IsEntry.readLine {key : MetadataKey} {value : Bytes}
    (entry : IsEntry key value content) (writable : Writable key.limit value) (noZero : 0 ∉ content)
    (inside : parser.inMetadata = true) :
    parser.readLine content =
      { parser with
        layout :=
          { parser.layout with
            toLayoutInfo := parser.layout.toLayoutInfo.store key.text value } } := by
  rcases entry with ⟨lead, gap, indent, trail, isLead, isGap, isIndent, isTrail, rfl⟩
  have noBlankMark {text : Bytes} (blanks : Blanks text) : '='.toUInt8 ∉ text :=
    fun listed => absurd (blanks _ listed) (by decide)
  have noMark : '='.toUInt8 ∉ lead ++ key.text ++ gap := by
    rw [List.mem_append, List.mem_append, not_or, not_or]
    exact ⟨⟨noBlankMark isLead, by cases key <;> decide⟩, noBlankMark isGap⟩
  have keyText : trim (lead ++ key.text ++ gap) = key.text := by
    refine strip_append (by cases key <;> decide) isLead ?_ ?_ isGap.isSpace
    all_goals
      cases key
      all_goals
        rintro _ ⟨⟩
        decide
  have starts : ((lead ++ key.text ++ gap).dropWhile isBlank).headD '='.toUInt8 ≠ '#'.toUInt8 := by
    rcases key.text_eq_cons with ⟨first, rest, shape, notBlank, notComment⟩
    rw [List.append_assoc, List.dropWhile_append_of_pos isLead, shape, List.cons_append,
      List.dropWhile_cons_of_neg notBlank]
    exact notComment
  rw [readLine_entry noMark noZero starts, keyText, trim_padded writable isIndent isTrail,
    Parser.enter, if_pos inside]

end Lines

section Texts

variable {parser : Parser} {values : MetadataKey → Bytes}

def Fits (content : Bytes) : Prop := '\n'.toUInt8 ∉ content ∧ content.length ≤ maxLine

theorem foldl_lines_ended {content rest : Bytes} (fits : Fits content) (ending : Ending) :
    (lines '\n'.toUInt8 maxLine (content ++ ending.text ++ rest)).foldl Parser.readLine parser =
      (lines '\n'.toUInt8 maxLine rest).foldl Parser.readLine (parser.readLine content) := by
  rcases fits with ⟨noNewline, short⟩
  cases ending with
  | lf =>
    have shape : content ++ Ending.lf.text ++ rest = content ++ '\n'.toUInt8 :: rest := by
      simp [Ending.text]
    rw [shape, lines_eq_cons (by decide) (by simp), line_append noNewline short,
      afterLine_append noNewline short, List.foldl_cons]
  | crlf =>
    have withReturn : '\n'.toUInt8 ∉ content ++ ['\r'.toUInt8] := by
      rw [List.mem_append, not_or]
      exact ⟨noNewline, by decide⟩
    by_cases room : content.length < maxLine
    · have shape : content ++ Ending.crlf.text ++ rest =
          (content ++ ['\r'.toUInt8]) ++ '\n'.toUInt8 :: rest := by
        simp [Ending.text]
      have fitsReturn : (content ++ ['\r'.toUInt8]).length ≤ maxLine := by
        rw [List.length_append, List.length_singleton]
        exact room
      rw [shape, lines_eq_cons (by decide) (by simp), line_append withReturn fitsReturn,
        afterLine_append withReturn fitsReturn, List.foldl_cons, readLine_concat_cr]
    · have full : content.length = maxLine := by omega
      have shape : content ++ Ending.crlf.text ++ rest =
          content ++ (['\r'.toUInt8] ++ '\n'.toUInt8 :: rest) := by
        simp [Ending.text]
      have goesOn : (['\r'.toUInt8] ++ '\n'.toUInt8 :: rest).head? ≠ some '\n'.toUInt8 := by
        rw [List.singleton_append, List.head?_cons]
        decide
      have loneReturn : '\n'.toUInt8 ∉ ['\r'.toUInt8] := by decide
      have fitsReturn : ['\r'.toUInt8].length ≤ maxLine := by decide
      have skipped (parser : Parser) : parser.readLine ['\r'.toUInt8] = parser :=
        readLine_skipped (classify_of_trim_nil (by decide))
      rw [shape, lines_eq_cons (by decide) (by simp), line_full noNewline full,
        afterLine_full noNewline full goesOn, lines_eq_cons (by decide) (by simp),
        line_append loneReturn fitsReturn, afterLine_append loneReturn fitsReturn,
        List.foldl_cons, List.foldl_cons, skipped]

theorem foldl_lines_last {last : Bytes} (fits : Fits last) :
    (lines '\n'.toUInt8 maxLine last).foldl Parser.readLine parser = parser.readLine last := by
  by_cases empty : last = []
  · subst empty
    exact (readLine_skipped (classify_of_trim_nil rfl)).symm
  · have whole : line '\n'.toUInt8 maxLine last = last := line_last fits.1 fits.2
    have nothing : afterLine '\n'.toUInt8 maxLine last = [] := by
      rw [afterLine, whole]
      simp
    rw [lines_eq_cons (by decide) empty, whole, nothing]
    rfl

theorem foldl_lines_render {ended : List (Bytes × Ending)} {last : Bytes}
    (fits : ∀ content ∈ ended.map Prod.fst ++ [last], Fits content) :
    (lines '\n'.toUInt8 maxLine (render ended last)).foldl Parser.readLine parser =
      (ended.map Prod.fst ++ [last]).foldl Parser.readLine parser := by
  induction ended generalizing parser with
  | nil => exact foldl_lines_last (fits last (by simp))
  | cons first ended ih =>
    have shape : render (first :: ended) last =
        first.1 ++ first.2.text ++ render ended last := by
      simp [render]
    rw [shape, foldl_lines_ended (fits first.1 (by simp)), ih fun content listed => ?_]
    · rfl
    · apply fits content
      simp only [List.map_cons, List.cons_append, List.mem_cons, listed, or_true]

theorem foldl_fillers {contents : List Bytes}
    (fillers : ∀ content ∈ contents, Filler content)
    (noZero : ∀ content ∈ contents, 0 ∉ content) (outside : parser.inLayout = false) :
    contents.foldl Parser.readLine parser = parser := by
  induction contents with
  | nil => rfl
  | cons content contents ih =>
    rw [List.foldl_cons, (fillers content List.mem_cons_self).readLine
      (noZero content List.mem_cons_self) outside]
    exact ih (fun content listed => fillers content (List.mem_cons_of_mem _ listed))
      fun content listed => noZero content (List.mem_cons_of_mem _ listed)

/-- In the section a stored value stays, and the line for a key stores it. -/
theorem get_readLine {content : Bytes} (writable : ∀ key, Writable key.limit (values key))
    (known : Filler content ∨ ∃ key, IsEntry key (values key) content) (noZero : 0 ∉ content)
    (inside : parser.inMetadata = true) (outside : parser.inLayout = false) :
    (parser.readLine content).inMetadata = true ∧ (parser.readLine content).inLayout = false ∧
      ∀ key, parser.layout.toLayoutInfo.get key = values key ∨
          IsEntry key (values key) content →
        (parser.readLine content).layout.toLayoutInfo.get key = values key := by
  have stored {key : MetadataKey} (entry : IsEntry key (values key) content)
      (other : MetadataKey) : (parser.readLine content).layout.toLayoutInfo.get other =
        if other = key then values key else parser.layout.toLayoutInfo.get other := by
    have read := @IsEntry.readLine parser content key (values key) entry (writable key) noZero
      inside
    have update := get_store parser.layout.toLayoutInfo key other (values key)
    rw [List.take_of_length_le (writable key).fits] at update
    rw [read]
    exact update
  rcases known with filler | ⟨first, entry⟩
  · have same := filler.readLine noZero outside
    refine ⟨by rwa [same], by rwa [same], fun key => ?_⟩
    rintro (held | entry)
    · rwa [same]
    · rw [stored entry, if_pos rfl]
  · have read := entry.readLine (writable first) noZero inside
    refine ⟨by rw [read]; exact inside, by rw [read]; exact outside, fun key => ?_⟩
    rintro (held | entry)
    · rw [stored entry]
      split
      next same => rw [same]
      next => exact held
    · rw [stored entry, if_pos rfl]

theorem foldl_entries {contents : List Bytes}
    (writable : ∀ key, Writable key.limit (values key))
    (known : ∀ content ∈ contents, Filler content ∨ ∃ key, IsEntry key (values key) content)
    (noZero : ∀ content ∈ contents, 0 ∉ content) (inside : parser.inMetadata = true)
    (outside : parser.inLayout = false) (key : MetadataKey)
    (present : parser.layout.toLayoutInfo.get key = values key ∨
      ∃ content ∈ contents, IsEntry key (values key) content) :
    (contents.foldl Parser.readLine parser).layout.toLayoutInfo.get key = values key := by
  induction contents generalizing parser with
  | nil =>
    rcases present with held | ⟨content, listed, _⟩
    · exact held
    · cases listed
  | cons content contents ih =>
    rcases get_readLine writable (known content List.mem_cons_self)
      (noZero content List.mem_cons_self) inside outside with ⟨stillInside, stillOutside, stored⟩
    refine ih (fun content listed => known content (List.mem_cons_of_mem _ listed))
      (fun content listed => noZero content (List.mem_cons_of_mem _ listed)) stillInside
      stillOutside ?_
    rcases present with held | ⟨entered, listed, entry⟩
    · exact Or.inl (stored key (Or.inl held))
    · rcases List.mem_cons.mp listed with rfl | later
      · exact Or.inl (stored key (Or.inr entry))
      · exact Or.inr ⟨entered, later, entry⟩

theorem Describes.foldl {contents : List Bytes} (describes : Describes values contents)
    (writable : ∀ key, Writable key.limit (values key))
    (noZero : ∀ content ∈ contents, 0 ∉ content) (outside : parser.inLayout = false)
    (key : MetadataKey) :
    (contents.foldl Parser.readLine parser).layout.toLayoutInfo.get key = values key := by
  rcases describes.arranged with ⟨before, heading, after, rfl, fillers, isHeading, known, present⟩
  have noZeroBefore : ∀ content ∈ before, 0 ∉ content := fun content listed =>
    noZero content (List.mem_append_left _ listed)
  have noZeroAfter : ∀ content ∈ after, 0 ∉ content := fun content listed =>
    noZero content (List.mem_append_right _ (List.mem_cons_of_mem _ listed))
  rw [List.foldl_append, foldl_fillers fillers noZeroBefore outside, List.foldl_cons,
    isHeading.readLine]
  exact foldl_entries writable known noZeroAfter rfl rfl key (Or.inr (present key))

theorem mem_render {ended : List (Bytes × Ending)} {last content : Bytes} {char : UInt8}
    (listed : content ∈ ended.map Prod.fst ++ [last]) (inside : char ∈ content) :
    char ∈ render ended last := by
  rw [render, List.mem_append]
  rw [List.mem_append, List.mem_singleton] at listed
  rcases listed with isEnded | rfl
  · rcases List.mem_map.mp isEnded with ⟨line, member, rfl⟩
    exact Or.inl (List.mem_flatMap.mpr ⟨line, member, List.mem_append_left _ inside⟩)
  · exact Or.inr inside

theorem render_ne_nil {ended : List (Bytes × Ending)} {last : Bytes}
    (describes : Describes values (ended.map Prod.fst ++ [last])) : render ended last ≠ [] := by
  rcases describes.arranged with ⟨before, heading, after, shape, _, isHeading, _⟩
  rcases isHeading with ⟨lead, trail, _, _, rfl⟩
  intro empty
  have inside : '['.toUInt8 ∈ render ended last := by
    refine @mem_render ended last (lead ++ ascii "[metadata]" ++ trail) _ (by simp [shape]) ?_
    exact List.mem_append_left _ (List.mem_append_right _ (by decide))
  rw [empty] at inside
  cases inside

/-- `parse_layout_file` reads the four values of a description, in whatever order and with
whatever blanks, comments, other keys and line ends. -/
theorem parseLayoutFileAt_description {ended : List (Bytes × Ending)} {last : Bytes}
    (writable : ∀ key, Writable key.limit (values key))
    (describes : Describes values (ended.map Prod.fst ++ [last]))
    (fits : ∀ content ∈ ended.map Prod.fst ++ [last], Fits content)
    (noZero : 0 ∉ render ended last) (short : (render ended last).length < 4096)
    (buffers : Buffers) (memory : Memory) (layout : Layout) {fuel : ℕ}
    (enough : bufferSize ≤ fuel) :
    ∃ parsed, parseLayoutFileAt fuel buffers memory (some (render ended last)) layout =
        some (0, parsed) ∧
      parsed.toLayoutInfo =
        { name := values .name
          code := values .code
          variant := values .variant
          description := values .description } := by
  have whole : (render ended last).take 4095 = render ended last :=
    List.take_of_length_le (by omega)
  have text : readString 4095 (render ended last) = render ended last :=
    readString_eq (by omega) noZero
  have contentNoZero : ∀ content ∈ ended.map Prod.fst ++ [last], 0 ∉ content :=
    fun content listed inside => noZero (mem_render listed inside)
  rw [parseLayoutFileAt_eq buffers memory _ layout enough, parseLayoutFile, whole,
    if_neg (render_ne_nil describes), text, foldl_lines_render fits]
  refine ⟨_, rfl, ?_⟩
  have stored := @Describes.foldl (Parser.initial layout) values _ describes writable contentNoZero
    rfl
  generalize ((ended.map Prod.fst ++ [last]).foldl Parser.readLine
    (Parser.initial layout)).layout.toLayoutInfo = info at stored ⊢
  rw [← stored .name, ← stored .code, ← stored .variant, ← stored .description]
  rfl

def sampleBuffers : Buffers :=
  { buffer := 0x1000, currentLine := 0x3000, apart := disjoint_range (by decide) }

def sampleValues : MetadataKey → Bytes
  | .name => ascii "US"
  | .code => ascii "us"
  | .variant => []
  | .description => ascii "a=b #c"

def sampleLines : List (Bytes × Ending) :=
  [(ascii "# layout", .crlf), ([], .lf), (ascii " [metadata]\t", .lf),
    (ascii "description = a=b #c ", .crlf), (ascii "author=me", .lf), (ascii "variant=", .lf),
    (ascii "\tcode =us", .crlf)]

theorem sampleLines_describes :
    Describes sampleValues (sampleLines.map Prod.fst ++ [ascii "name=US"]) := by
  have blanks {text : Bytes} (all : text.all isBlank = true) : Blanks text :=
    List.all_eq_true.mp all
  have name : IsEntry .name (sampleValues .name) (ascii "name=US") :=
    ⟨[], [], [], [], blanks rfl, blanks rfl, blanks rfl, blanks rfl, by decide⟩
  have code : IsEntry .code (sampleValues .code) (ascii "\tcode =us") :=
    ⟨ascii "\t", ascii " ", [], [], blanks rfl, blanks rfl, blanks rfl, blanks rfl, by decide⟩
  have variant : IsEntry .variant (sampleValues .variant) (ascii "variant=") :=
    ⟨[], [], [], [], blanks rfl, blanks rfl, blanks rfl, blanks rfl, by decide⟩
  have description :
      IsEntry .description (sampleValues .description) (ascii "description = a=b #c ") :=
    ⟨[], ascii " ", ascii " ", ascii " ", blanks rfl, blanks rfl, blanks rfl, blanks rfl, by decide⟩
  have other : Filler (ascii "author=me") :=
    @Filler.otherKey (ascii "author") (ascii "me") (by decide) fun key => by cases key <;> decide
  refine ⟨[ascii "# layout", []], ascii " [metadata]\t", [ascii "description = a=b #c ",
    ascii "author=me", ascii "variant=", ascii "\tcode =us", ascii "name=US"], rfl, ?_, ?_, ?_, ?_⟩
  · simp only [List.forall_mem_cons, List.not_mem_nil, IsEmpty.forall_iff, implies_true, and_true]
    exact ⟨@Filler.comment [] (ascii " layout") (blanks rfl), Filler.blank (blanks rfl)⟩
  · exact ⟨ascii " ", ascii "\t", blanks rfl, blanks rfl, by decide⟩
  · simp only [List.forall_mem_cons, List.not_mem_nil, IsEmpty.forall_iff, implies_true, and_true]
    exact ⟨Or.inr ⟨_, description⟩, Or.inl other, Or.inr ⟨_, variant⟩, Or.inr ⟨_, code⟩,
      Or.inr ⟨_, name⟩⟩
  · intro key
    cases key with
    | name => exact ⟨_, by simp, name⟩
    | code => exact ⟨_, by simp, code⟩
    | variant => exact ⟨_, by simp, variant⟩
    | description => exact ⟨_, by simp, description⟩

theorem parseLayoutFileAt_description_sample :
    0 ∉ render sampleLines (ascii "name=US") ∧
      ∃ parsed, parseLayoutFileAt bufferSize sampleBuffers (fun _ => 0)
          (some (render sampleLines (ascii "name=US"))) Layout.zeroed = some (0, parsed) ∧
        parsed.toLayoutInfo =
          { name := ascii "US", code := ascii "us", variant := []
            description := ascii "a=b #c" } := by
  have writable : ∀ key, Writable key.limit (sampleValues key) := by
    intro key
    refine ⟨by cases key <;> decide, ?_, ?_⟩
    all_goals
      cases key
      all_goals rintro _ ⟨⟩ <;> decide
  have fits : ∀ content ∈ sampleLines.map Prod.fst ++ [ascii "name=US"], Fits content := by
    simp only [sampleLines, List.map_cons, List.map_nil, List.cons_append, List.nil_append,
      List.forall_mem_cons, List.not_mem_nil, IsEmpty.forall_iff, implies_true, and_true]
    refine ⟨?_, ?_, ?_, ?_, ?_, ?_, ?_, ?_⟩
    all_goals exact ⟨by decide, by decide⟩
  have noZero : 0 ∉ render sampleLines (ascii "name=US") := by decide
  exact ⟨noZero, parseLayoutFileAt_description writable sampleLines_describes fits noZero
    (by decide) sampleBuffers (fun _ => 0) Layout.zeroed le_rfl⟩

end Texts

end RamOS.Keyboard.Layouts
