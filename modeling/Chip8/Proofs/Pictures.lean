import Chip8.Display.Render
import Chip8.Proofs.Blit
import Chip8.Proofs.Listing

/-! # Pictures show the whole screen

Both pictures are made of lines, and a text is made of lines in one way only. In the framed one the
places behind the frame stand for the pixels one by one. A braille character stands for eight of
them: its number has a bit for each. So two screens have the same picture only if they are the same.
-/

namespace Chip8

namespace Text

/-- A text that consists of lines, each with its end. -/
structure MadeOf (text : String) (lines : List String) : Prop where
  joined : text = String.join (lines.map (· ++ "\n"))
  oneLine : ∀ line ∈ lines, OneLine line

theorem takeWhile_line {line : String} (h : OneLine line) (rest : List Char) :
    (line.toList ++ '\n' :: rest).takeWhile (· != '\n') = line.toList := by
  have hinside : ∀ c ∈ line.toList, (c != '\n') = true := by
    intro c hc
    exact bne_iff_ne.mpr fun hend => h (hend ▸ hc)
  rw [List.takeWhile_append_of_pos hinside, List.takeWhile_cons_of_neg (by simp), List.append_nil]

theorem line_append_inj {line other : String} (hline : OneLine line) (hother : OneLine other)
    {rest rest' : List Char}
    (h : line.toList ++ '\n' :: rest = other.toList ++ '\n' :: rest') :
    line = other ∧ rest = rest' := by
  have hfront : line.toList = other.toList := by
    rw [← takeWhile_line hline rest, h, takeWhile_line hother]
  rw [hfront] at h
  exact ⟨String.toList_inj.mp hfront, (List.cons.inj (List.append_cancel_left h)).2⟩

theorem toList_join_cons (line : String) (lines : List String) :
    (String.join ((line :: lines).map (· ++ "\n"))).toList =
      line.toList ++ '\n' :: (String.join (lines.map (· ++ "\n"))).toList := by
  rw [List.map_cons, String.join_cons, String.toList_append, String.toList_append,
    List.append_assoc]
  rfl

theorem MadeOf.unique {text : String} {lines others : List String} (h : MadeOf text lines)
    (h' : MadeOf text others) : lines = others := by
  obtain ⟨rfl, hlines⟩ := h
  obtain ⟨hjoin, hothers⟩ := h'
  rw [← String.toList_inj] at hjoin
  induction lines generalizing others with
  | nil =>
    cases others with
    | nil => rfl
    | cons other others =>
      rw [toList_join_cons] at hjoin
      exact absurd hjoin.symm (by simp)
  | cons line lines ih =>
    cases others with
    | nil =>
      rw [toList_join_cons] at hjoin
      exact absurd hjoin (by simp)
    | cons other others =>
      rw [List.forall_mem_cons] at hlines hothers
      rw [toList_join_cons, toList_join_cons] at hjoin
      obtain ⟨rfl, hrest⟩ := line_append_inj hlines.1 hothers.1 hjoin
      rw [ih hlines.2 hrest hothers.2]

theorem MadeOf.lines_eq {text other : String} {lines others : List String} (h : MadeOf text lines)
    (h' : MadeOf other others) (heq : text = other) : lines = others := by
  subst heq
  exact h.unique h'

/-- Lines with ends between them, and one more end behind them. -/
theorem intercalate_append_end {lines : List String} (h : lines ≠ []) :
    "\n".intercalate lines ++ "\n" = String.join (lines.map (· ++ "\n")) := by
  induction lines with
  | nil => exact absurd rfl h
  | cons line lines ih =>
    rw [List.map_cons, String.join_cons]
    cases lines with
    | nil => rw [String.intercalate_singleton, List.map_nil, String.join_nil, String.append_empty]
    | cons next lines =>
      rw [String.intercalate_cons_of_ne_nil (List.cons_ne_nil _ _), String.append_assoc,
        ih (List.cons_ne_nil _ _)]

end Text

open Text

namespace Display

variable (d : Display)

theorem pixel_of_le_column {px : Nat} (hpx : Layout.screenColumns ≤ px) (py : Nat) :
    d.pixel px py = false := by
  unfold pixel
  split
  case isTrue => exact BitVec.getMsbD_of_ge _ _ hpx
  case isFalse => rfl

theorem pixel_of_le_row (px : Nat) {py : Nat} (hpy : Layout.screenRows ≤ py) :
    d.pixel px py = false := dif_neg (Nat.not_lt.mpr hpy)

/-! ## The framed picture -/

/-- A line between two characters of the frame. -/
def between (side : Char) (cells : List Char) : String :=
  String.ofList (side :: cells ++ [side])

def edgeLine (corner : Char) : String :=
  between corner (List.replicate Layout.screenColumns '-')

def rowCells (y : Nat) : List Char :=
  (List.range Layout.screenColumns).map fun x => if d.pixel x y then '#' else ' '

def framedLines : List String :=
  edgeLine '.' :: (List.range Layout.screenRows).map (fun y => between '|' (d.rowCells y))
    ++ [edgeLine '\x27']

theorem length_rowCells (y : Nat) : (d.rowCells y).length = Layout.screenColumns := by
  rw [rowCells, List.length_map, List.length_range]

theorem mem_framedLines {line : String} (h : line ∈ d.framedLines) : ∃ side cells,
    line = between side cells ∧ cells.length = Layout.screenColumns ∧ side ≠ '\n' ∧
      '\n' ∉ cells := by
  simp only [framedLines, List.mem_append, List.mem_cons, List.mem_map, List.not_mem_nil,
    or_false] at h
  obtain (rfl | ⟨y, -, rfl⟩) | rfl := h
  · exact ⟨'.', _, rfl, by simp, by decide, by simp⟩
  · refine ⟨'|', _, rfl, d.length_rowCells y, by decide, ?_⟩
    intro hend
    obtain ⟨x, -, hx⟩ := List.mem_map.mp hend
    split at hx
    case isTrue => exact absurd hx (by decide)
    case isFalse => exact absurd hx (by decide)
  · exact ⟨'\x27', _, rfl, by simp, by decide, by simp⟩

theorem length_between (side : Char) (cells : List Char) :
    (between side cells).length = cells.length + 2 := by
  rw [between, ← String.length_toList, String.toList_ofList]
  simp

theorem oneLine_between {side : Char} {cells : List Char} (hside : side ≠ '\n')
    (hcells : '\n' ∉ cells) : OneLine (between side cells) := by
  simp [OneLine, between, String.toList_ofList, hside.symm, hcells]

theorem framed_madeOf : MadeOf d.framed d.framedLines where
  joined := by
    have hrow : ∀ y, d.framedRow y = between '|' (d.rowCells y) ++ "\n" := by
      intro y
      apply String.toList_inj.mp
      simp [framedRow, between, rowCells]
    have hedge : ∀ corner : Char,
        framedEdge (String.singleton corner) = edgeLine corner ++ "\n" := by
      intro corner
      apply String.toList_inj.mp
      simp [framedEdge, edgeLine, between]
    have hrows : (List.range Layout.screenRows).map d.framedRow =
        ((List.range Layout.screenRows).map fun y => between '|' (d.rowCells y)).map
          (· ++ "\n") := by
      rw [List.map_map]
      exact List.map_congr_left fun y _ => hrow y
    rw [framed, framedLines, List.map_append, String.join_append, List.map_cons, String.join_cons,
      ← hrows, ← hedge, List.map_singleton, String.join_cons, String.join_nil, String.append_empty,
      ← hedge]
    rfl
  oneLine line hline := by
    obtain ⟨side, cells, rfl, -, hside, hcells⟩ := d.mem_framedLines hline
    exact oneLine_between hside hcells

theorem getElem?_between (side : Char) {cells : List Char} {px : Nat} {c : Char}
    (hside : side ≠ c) : (between side cells).toList[px + 1]? = some c ↔ cells[px]? = some c := by
  rw [between, String.toList_ofList, List.cons_append, List.getElem?_cons_succ]
  obtain hin | hout := Nat.lt_or_ge px cells.length
  · rw [List.getElem?_append_left hin]
  · rw [List.getElem?_append_right hout, List.getElem?_eq_none hout]
    constructor
    · intro h
      exact absurd (List.mem_singleton.mp (List.mem_of_getElem? h)) hside.symm
    · intro h
      cases h

theorem getElem?_rowCells {px py : Nat} :
    (d.rowCells py)[px]? = some '#' ↔ d.pixel px py = true := by
  obtain hin | hout := Nat.lt_or_ge px Layout.screenColumns
  · rw [rowCells, List.getElem?_map, List.getElem?_range hin]
    cases hpixel : d.pixel px py <;> simp [hpixel]
  · have hlength : (d.rowCells py).length ≤ px := d.length_rowCells py ▸ hout
    simp [List.getElem?_eq_none hlength, d.pixel_of_le_column hout]

/-- Behind the frame, the places of the picture are the places of the screen. -/
theorem framed_cell (px py : Nat) :
    (∃ line, d.framedLines[py + 1]? = some line ∧ line.toList[px + 1]? = some '#') ↔
      d.pixel px py = true := by
  rw [framedLines, List.cons_append, List.getElem?_cons_succ]
  obtain hin | hout := Nat.lt_or_ge py Layout.screenRows
  · rw [List.getElem?_append_left (by simpa using hin), List.getElem?_map, List.getElem?_range hin]
    simp only [Option.map_some, Option.some.injEq, exists_eq_left',
      getElem?_between '|' (by decide : '|' ≠ '#'), getElem?_rowCells]
  · rw [List.getElem?_append_right (by simpa using hout), d.pixel_of_le_row px hout]
    constructor
    · rintro ⟨line, hline, hcell⟩
      obtain rfl := List.mem_singleton.mp (List.mem_of_getElem? hline)
      rw [edgeLine, getElem?_between '\x27' (by decide : '\x27' ≠ '#')] at hcell
      exact absurd (List.eq_of_mem_replicate (List.mem_of_getElem? hcell)) (by decide)
    · intro h
      cases h

variable {d} {e : Display}

theorem framed_inj : d.framed = e.framed ↔ d.screen = e.screen := by
  constructor
  · intro h
    have hlines : d.framedLines = e.framedLines := d.framed_madeOf.lines_eq e.framed_madeOf h
    apply screen_ext
    intro px py
    rw [Bool.eq_iff_iff, ← framed_cell, hlines, framed_cell]
  · intro h
    have hrow : d.framedRow = e.framedRow := by
      funext y
      rw [framedRow, framedRow, pixel_eq_of_screen h]
    rw [framed, framed, hrow]

/-! ## The braille picture -/

/-- The bits of the dots of one character that are set. -/
def dotBits (dot : Nat → Nat → Bool) : Nat :=
  brailleDots.foldl (fun bits (dx, dy, bit) => if dot dx dy then bits ||| bit else bits) 0

/-- A braille character, or a blank where no dot is set. -/
def dotChar (dot : Nat → Nat → Bool) : Char :=
  if dotBits dot = 0 then ' ' else Char.ofNat (0x2800 + dotBits dot)

theorem testBit_foldl (dot : Nat → Nat → Bool) (dots : List (Nat × Nat × Nat)) (start k : Nat) :
    (dots.foldl (fun bits (dx, dy, bit) => if dot dx dy then bits ||| bit else bits) start).testBit k
      = (start.testBit k || dots.any fun (dx, dy, bit) => dot dx dy && bit.testBit k) := by
  induction dots generalizing start with
  | nil => simp
  | cons place dots ih =>
    obtain ⟨dx, dy, bit⟩ := place
    rw [List.foldl_cons, ih, List.any_cons]
    cases hdot : dot dx dy <;> simp [hdot, Nat.testBit_or, Bool.or_assoc]

theorem testBit_dotBits (dot : Nat → Nat → Bool) (k : Nat) : (dotBits dot).testBit k =
    brailleDots.any fun (dx, dy, bit) => dot dx dy && bit.testBit k := by
  rw [dotBits, testBit_foldl, Nat.zero_testBit, Bool.false_or]

theorem dotBits_lt (dot : Nat → Nat → Bool) : dotBits dot < 256 := by
  change dotBits dot < 2 ^ 8
  apply Nat.lt_pow_two_of_testBit
  intro k hk
  rw [testBit_dotBits, List.any_eq_false]
  rintro ⟨dx, dy, bit⟩ hmem
  have hbit : ∀ place ∈ brailleDots, place.2.2 < 2 ^ 8 := by decide
  have hlt : bit < 2 ^ k := Nat.lt_of_lt_of_le (hbit _ hmem) (Nat.pow_le_pow_right (by decide) hk)
  simp [Nat.testBit_lt_two_pow hlt]

theorem toNat_dotChar (dot : Nat → Nat → Bool) : (dotChar dot).toNat =
    if dotBits dot = 0 then 32 else 0x2800 + dotBits dot := by
  unfold dotChar
  split
  case isTrue => rfl
  case isFalse =>
    have hlt := dotBits_lt dot
    have hvalid : (0x2800 + dotBits dot).isValidChar := .inl (by omega)
    rw [Char.ofNat, dif_pos hvalid]
    rfl

/-- Each place of a block has a bit that no other place has. -/
theorem exists_bit : ∀ dx < 2, ∀ dy < 4, ∃ k < 8,
    (∃ place ∈ brailleDots, place.1 = dx ∧ place.2.1 = dy) ∧
    ∀ place ∈ brailleDots, place.2.2.testBit k = decide (place.1 = dx ∧ place.2.1 = dy) := by
  decide

variable {dot other : Nat → Nat → Bool}

theorem dotBits_of_dotChar (h : dotChar dot = dotChar other) : dotBits dot = dotBits other := by
  have htoNat := congrArg Char.toNat h
  rw [toNat_dotChar, toNat_dotChar] at htoNat
  split at htoNat <;> split at htoNat <;> omega

theorem dot_of_dotChar (h : dotChar dot = dotChar other) {dx dy : Nat} (hdx : dx < 2)
    (hdy : dy < 4) : dot dx dy = other dx dy := by
  obtain ⟨k, -, ⟨place, hplace, rfl, rfl⟩, hbit⟩ := exists_bit dx hdx dy hdy
  have hthere : ∀ dot : Nat → Nat → Bool, (dotBits dot).testBit k = dot place.1 place.2.1 := by
    intro dot
    rw [testBit_dotBits, Bool.eq_iff_iff, List.any_eq_true]
    constructor
    · rintro ⟨found, hfound, hset⟩
      rw [Bool.and_eq_true, hbit found hfound, decide_eq_true_eq] at hset
      rw [← hset.2.1, ← hset.2.2]
      exact hset.1
    · intro hset
      refine ⟨place, hplace, ?_⟩
      rw [Bool.and_eq_true, hbit place hplace]
      exact ⟨hset, decide_eq_true ⟨rfl, rfl⟩⟩
  rw [← hthere dot, ← hthere other, dotBits_of_dotChar h]

def brailleLine (d : Display) (cy : Nat) : String :=
  String.ofList ((List.range (Layout.screenColumns / 2 + 1)).map fun cx => d.brailleCell cx cy)

def brailleLines (d : Display) : List String :=
  (List.range (Layout.screenRows / 4 + 1)).map d.brailleLine

theorem brailleCell_eq (d : Display) (cx cy : Nat) : d.brailleCell cx cy =
    dotChar fun dx dy => d.pixel (2 * cx + dx) (4 * cy + dy) := rfl

theorem oneLine_brailleLine (d : Display) (cy : Nat) : OneLine (d.brailleLine cy) := by
  rw [OneLine, brailleLine, String.toList_ofList]
  intro hend
  obtain ⟨cx, -, hcell⟩ := List.mem_map.mp hend
  have htoNat := congrArg Char.toNat hcell
  have hten : '\n'.toNat = 10 := rfl
  rw [brailleCell_eq, toNat_dotChar, hten] at htoNat
  split at htoNat <;> omega

theorem braille_madeOf (d : Display) : MadeOf d.braille d.brailleLines where
  joined := by
    rw [brailleLines, List.map_map]
    rfl
  oneLine line hline := by
    obtain ⟨cy, -, rfl⟩ := List.mem_map.mp hline
    exact d.oneLine_brailleLine cy

theorem braille_inj : d.braille = e.braille ↔ d.screen = e.screen := by
  constructor
  · intro h
    have hlines : d.brailleLines = e.brailleLines := d.braille_madeOf.lines_eq e.braille_madeOf h
    apply screen_ext
    intro px py
    obtain hpx | hpx := Nat.lt_or_ge px Layout.screenColumns
    · obtain hpy | hpy := Nat.lt_or_ge py Layout.screenRows
      · have hcy : py / 4 < Layout.screenRows / 4 + 1 := by omega
        have hcx : px / 2 < Layout.screenColumns / 2 + 1 := by omega
        have hline := List.map_inj_left.mp hlines (py / 4) (List.mem_range.mpr hcy)
        have hcell := List.map_inj_left.mp (String.ofList_inj.mp hline) (px / 2)
          (List.mem_range.mpr hcx)
        rw [brailleCell_eq, brailleCell_eq] at hcell
        have hdot := dot_of_dotChar hcell (Nat.mod_lt px (by decide)) (Nat.mod_lt py (by decide))
        simpa only [Nat.div_add_mod] using hdot
      · rw [d.pixel_of_le_row px hpy, e.pixel_of_le_row px hpy]
    · rw [d.pixel_of_le_column hpx, e.pixel_of_le_column hpx]
  · intro h
    have hrow : d.brailleRow = e.brailleRow := by
      funext cy
      simp only [brailleRow, brailleCell_eq, pixel_eq_of_screen h]
    rw [braille, braille, hrow]

/-! ## The braille picture on a canvas -/

/-- The lit pixels in the order in which they are set on a canvas. -/
def dots (d : Display) : List (Nat × Nat) :=
  (List.range Layout.screenRows).flatMap fun y =>
    ((List.range Layout.screenColumns).filter fun x => d.pixel x y).map fun x => (x, y)

theorem bounds_of_mem_dots {dot : Nat × Nat} (h : dot ∈ d.dots) :
    dot.1 < Layout.screenColumns ∧ dot.2 < Layout.screenRows := by
  simp only [dots, List.mem_flatMap, List.mem_map, List.mem_filter, List.mem_range] at h
  obtain ⟨y, hy, x, ⟨hx, -⟩, rfl⟩ := h
  exact ⟨hx, hy⟩

theorem mem_dots {px py : Nat} : (px, py) ∈ d.dots ↔ d.pixel px py = true := by
  simp only [dots, List.mem_flatMap, List.mem_map, List.mem_filter, List.mem_range, Prod.mk.injEq]
  constructor
  · rintro ⟨y, -, x, ⟨-, hlit⟩, rfl, rfl⟩
    exact hlit
  · intro hlit
    have hpy : py < Layout.screenRows := by
      apply Nat.lt_of_not_le
      intro hout
      rw [d.pixel_of_le_row px hout] at hlit
      cases hlit
    have hpx : px < Layout.screenColumns := by
      apply Nat.lt_of_not_le
      intro hout
      rw [d.pixel_of_le_column hout] at hlit
      cases hlit
    exact ⟨py, hpy, px, ⟨hpx, hlit⟩, rfl, rfl⟩

/-- Rows of characters that show some dots, each character a block of two by four places. -/
structure Grid (dots : List (Nat × Nat)) (rows : List String) : Prop where
  height : rows.length = 9
  width : ∀ row ∈ rows, row.length = 33
  cells : ∀ cx < 33, ∀ cy < 9, ∃ row, rows[cy]? = some row ∧
    row.toList[cx]? = some (dotChar fun dx dy => decide ((2 * cx + dx, 4 * cy + dy) ∈ dots))

/-- What a canvas of the size of the screen makes of the dots that are set on it. It has one block
more than they fill, to the right and below. Dots beside it are not spoken of. -/
def DrawsGrid (frame : List (Nat × Nat) → String) : Prop :=
  ∀ dots, (∀ dot ∈ dots, dot.1 < 64 ∧ dot.2 < 32) →
    ∃ rows, frame dots = "\n".intercalate rows ∧ Grid dots rows

/-- What is printed of a display by means of a canvas. -/
def printed (frame : List (Nat × Nat) → String) (d : Display) : String := frame d.dots ++ "\n"

theorem length_brailleLines (d : Display) : d.brailleLines.length = 9 := by
  rw [brailleLines, List.length_map, List.length_range]
  rfl

theorem getElem?_brailleLine (d : Display) (cx cy : Nat) : (d.brailleLine cy).toList[cx]? =
    if cx < 33 then some (d.brailleCell cx cy) else none := by
  have hwidth : Layout.screenColumns / 2 + 1 = 33 := rfl
  rw [brailleLine, String.toList_ofList, List.getElem?_map, hwidth]
  split
  case isTrue hcx => rw [List.getElem?_range hcx, Option.map_some]
  case isFalse hcx => rw [List.getElem?_eq_none (by simpa using hcx), Option.map_none]

theorem Grid.rows_eq {rows : List String} (h : Grid d.dots rows) : rows = d.brailleLines := by
  have hdot : ∀ px py, decide ((px, py) ∈ d.dots) = d.pixel px py := by
    intro px py
    rw [Bool.eq_iff_iff, decide_eq_true_eq, mem_dots]
  apply List.ext_getElem (h.height.trans d.length_brailleLines.symm)
  intro cy hcy _
  have hrow : rows[cy] = d.brailleLine cy := by
    apply String.toList_inj.mp
    apply List.ext_getElem?
    intro cx
    rw [getElem?_brailleLine]
    split
    case isTrue hcx =>
      obtain ⟨row, hget, hcell⟩ := h.cells cx hcx cy (h.height ▸ hcy)
      rw [List.getElem?_eq_getElem hcy, Option.some.injEq] at hget
      rw [hget, hcell, brailleCell_eq]
      simp only [hdot]
    case isFalse hcx =>
      have hwidth := h.width _ (List.getElem_mem hcy)
      rw [← String.length_toList] at hwidth
      exact List.getElem?_eq_none (by omega)
  simp only [hrow, brailleLines, List.getElem_map, List.getElem_range]

theorem printed_eq_braille {frame : List (Nat × Nat) → String} (hframe : DrawsGrid frame)
    (d : Display) : d.printed frame = d.braille := by
  obtain ⟨rows, hrows, hgrid⟩ := hframe d.dots fun _ => bounds_of_mem_dots
  have hsome : d.brailleLines ≠ [] := by
    rw [← hgrid.rows_eq]
    intro hnone
    have hheight := hgrid.height
    rw [hnone] at hheight
    cases hheight
  rw [printed, hrows, hgrid.rows_eq, intercalate_append_end hsome, d.braille_madeOf.joined]

/-- Two displays have the same pictures exactly if they have the same pixels, whether or not they
count as changed. In the framed one each pixel has its place, behind the frame. -/
theorem pictures_show_screen {frame : List (Nat × Nat) → String} (hframe : DrawsGrid frame)
    (d e : Display) :
    (d.framed = e.framed ↔ d.screen = e.screen) ∧
    (d.printed frame = e.printed frame ↔ d.screen = e.screen) ∧
    d.printed frame = d.braille ∧
    (∃ lines : List String, MadeOf d.framed lines ∧ lines.length = 34 ∧
      (∀ line ∈ lines, line.length = 66) ∧
      ∀ px py, (∃ line, lines[py + 1]? = some line ∧ line.toList[px + 1]? = some '#') ↔
        d.pixel px py = true) ∧
    ∀ changed, (⟨d.screen, changed⟩ : Display).framed = d.framed ∧
      (⟨d.screen, changed⟩ : Display).printed frame = d.printed frame := by
  refine ⟨framed_inj, ?_, printed_eq_braille hframe d, ?_, ?_⟩
  · rw [printed_eq_braille hframe, printed_eq_braille hframe, braille_inj]
  · refine ⟨d.framedLines, d.framed_madeOf, ?_, ?_, d.framed_cell⟩
    · simp [framedLines]
    · intro line hline
      obtain ⟨side, cells, rfl, hcells, -⟩ := d.mem_framedLines hline
      rw [length_between, hcells]
  · intro changed
    rw [printed_eq_braille hframe, printed_eq_braille hframe]
    exact ⟨framed_inj.mpr rfl, braille_inj.mpr rfl⟩

def gridRows (dots : List (Nat × Nat)) : List String :=
  (List.range 9).map fun cy => String.ofList ((List.range 33).map fun cx =>
    dotChar fun dx dy => decide ((2 * cx + dx, 4 * cy + dy) ∈ dots))

theorem grid_gridRows (dots : List (Nat × Nat)) : Grid dots (gridRows dots) where
  height := by rw [gridRows, List.length_map, List.length_range]
  width row hrow := by
    obtain ⟨cy, -, rfl⟩ := List.mem_map.mp hrow
    rw [← String.length_toList, String.toList_ofList, List.length_map, List.length_range]
  cells cx hcx cy hcy := by
    refine ⟨_, by rw [gridRows, List.getElem?_map, List.getElem?_range hcy, Option.map_some], ?_⟩
    rw [String.toList_ofList, List.getElem?_map, List.getElem?_range hcx, Option.map_some]

/-- The pixel in the last corner is seen in both pictures. -/
theorem corner_pictured :
    DrawsGrid (fun dots => "\n".intercalate (gridRows dots)) ∧
    corner.framed ≠ blank.framed ∧
    corner.printed (fun dots => "\n".intercalate (gridRows dots)) ≠
      blank.printed (fun dots => "\n".intercalate (gridRows dots)) := by
  have hdraws : DrawsGrid (fun dots => "\n".intercalate (gridRows dots)) :=
    fun dots _ => ⟨gridRows dots, rfl, grid_gridRows dots⟩
  have hother : corner.screen ≠ blank.screen := by decide
  obtain ⟨hframed, hprinted, -⟩ := pictures_show_screen hdraws corner blank
  exact ⟨hdraws, mt hframed.mp hother, mt hprinted.mp hother⟩

end Display

end Chip8
