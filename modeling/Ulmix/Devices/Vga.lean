import Ulmix.Lib.Exec
import Ulmix.Lib.Word
/-!
# The text screen (`drivers/vga.c`)

The driver keeps a cursor and writes characters and colours to video memory; at
the last line it copies the screen up by one row. What is seen is a window on a
terminal of unbounded height: one step of the driver is one step of the
terminal (`text_putc_shows`), so every sequence of writes is (`vga_window`).

Column 80 is a state of its own: the cursor stays there until the next byte.
-/
open Ulmix.Lib

namespace Ulmix.Vga

def VIDEO_BASE : Nat := 0xb8000
def LINES : Nat := 25
def COLUMNS : Nat := 80
def T_BLACK : Nat := 0
def T_CYAN : Nat := 3
def T_WHITE : Nat := 0xf

/-! ## The driver -/

/-- The static variables, and memory. -/
structure Screen where
  mem : Nat → UInt8
  current_color : UInt8
  text_x : Nat
  text_y : Nat
  setup : Bool

def get_color (text background : Nat) : UInt8 := UInt8.ofNat (text ||| background <<< 4)

/-- `memcpy`, byte by byte from the front. -/
def memcpy : Nat → Nat → Nat → (Nat → UInt8) → Nat → UInt8
  | _, _, 0, m => m
  | dest, src, n + 1, m => memcpy (dest + 1) (src + 1) n (Function.update m dest (m src))

/-- `n` empty cells from `p` on. -/
def empty_cells (color : UInt8) : Nat → Nat → (Nat → UInt8) → Nat → UInt8
  | _, 0, m => m
  | p, n + 1, m => empty_cells color (p + 2) n (Function.update (Function.update m p 0) (p + 1) color)

def text_clear (s : Screen) : Screen :=
  { s with
    text_x := 0
    text_y := 0
    mem := empty_cells (get_color T_WHITE T_BLACK) VIDEO_BASE (COLUMNS * LINES) s.mem }

/-- The case `'\n'` of `text_putc`. -/
def new_line (s : Screen) : Screen :=
  if s.text_y = LINES - 1 then
    { s with
      text_x := 0
      mem := empty_cells s.current_color (VIDEO_BASE + (LINES - 1) * COLUMNS * 2) COLUMNS
        (memcpy VIDEO_BASE (VIDEO_BASE + COLUMNS * 2) ((LINES - 1) * COLUMNS * 2) s.mem) }
  else { s with text_x := 0, text_y := add32 s.text_y 1 }

/-- `text_putc`, with the number of calls of itself it may nest. -/
def text_putc_nested : Nat → UInt8 → Screen → Except Fault Screen
  | 0, _, _ => .error .diverges
  | depth + 1, c, s =>
    let mptr := add32 VIDEO_BASE ((s.text_y * COLUMNS + s.text_x) * 2)
    if c = 0x08 then
      let mem := Function.update (Function.update s.mem mptr 0) (sub32 mptr 1) s.current_color
      .ok { s with mem := mem, text_x := sub32 s.text_x 1 }
    else if c = 0x0a then .ok (new_line s)
    else if c = 0x0d then .ok { s with text_x := 0 }
    else if c = 0x09 then (List.replicate 4 0).foldlM (fun s c => text_putc_nested depth c s) s
    else if s.text_x = COLUMNS then do
      let s ← text_putc_nested depth 0x0a s
      text_putc_nested depth c s
    else
      let mem := Function.update (Function.update s.mem mptr c) (add32 mptr 1) s.current_color
      .ok { s with mem := mem, text_x := add32 s.text_x 1 }

/-- A tab puts zeros, of which one may have to wrap first: three calls. -/
def text_putc (c : UInt8) (s : Screen) : Except Fault Screen := text_putc_nested 3 c s

def init_vga (s : Screen) : Screen :=
  if s.setup then s else { text_clear s with setup := true, current_color := get_color T_CYAN T_BLACK }

def vga_write (buf : List UInt8) (s : Screen) : Except Fault Screen :=
  buf.foldlM (fun s c => text_putc c s) (if s.setup then s else init_vga s)

/-- The character in row `y` and column `x` of the screen. -/
def Screen.char (s : Screen) (y x : Nat) : UInt8 := s.mem (VIDEO_BASE + (y * COLUMNS + x) * 2)

/-! ## The terminal -/

/-- A terminal with 80 columns and rows without end. -/
structure Terminal where
  cell : Nat → Nat → UInt8
  row : Nat
  col : Nat

namespace Terminal

def blank : Terminal := ⟨fun _ _ => 0, 0, 0⟩

def newline (t : Terminal) : Terminal := { t with row := t.row + 1, col := 0 }

/-- The byte goes to the cursor, which moves on. -/
def put (c : UInt8) (t : Terminal) : Terminal :=
  { t with cell := Function.update t.cell t.row (Function.update (t.cell t.row) t.col c), col := t.col + 1 }

/-- A byte written at column 80 wraps first. -/
def ordinary (c : UInt8) (t : Terminal) : Terminal := if t.col = 80 then t.newline.put c else t.put c

def write (t : Terminal) (c : UInt8) : Terminal :=
  if c = 0x0a then t.newline
  else if c = 0x0d then { t with col := 0 }
  else if c = 0x09 then ((t.ordinary 0).ordinary 0 |>.ordinary 0).ordinary 0
  else t.ordinary c

/-- The first row that is seen: the last 25 rows are, or the first 25 while there are fewer. -/
def top (t : Terminal) : Nat := t.row + 1 - 25

end Terminal

/-! ## Copying and clearing -/

theorem memcpy_apply (n : Nat) : ∀ (dest src : Nat) (m : Nat → UInt8) (a : Nat), dest < src →
    memcpy dest src n m a = if dest ≤ a ∧ a < dest + n then m (a - dest + src) else m a := by
  induction n with
  | zero =>
    intro dest src m a _
    rw [if_neg (by omega)]
    rfl
  | succ n ih =>
    intro dest src m a hlt
    rw [memcpy, ih (dest + 1) (src + 1) _ a (by omega)]
    by_cases ha : a = dest
    · subst ha
      simp
    · by_cases hin : dest + 1 ≤ a ∧ a < dest + 1 + n
      · -- the byte copied lies behind the one just overwritten
        rw [if_pos hin, if_pos (by omega), Function.update_of_ne (by omega)]
        congr 1
        omega
      · rw [if_neg hin, if_neg (by omega), Function.update_of_ne ha]

theorem empty_cells_outside (color : UInt8) (n : Nat) : ∀ (p : Nat) (m : Nat → UInt8) (a : Nat),
    (a < p ∨ p + 2 * n ≤ a) → empty_cells color p n m a = m a := by
  induction n with
  | zero =>
    intro p m a _
    rfl
  | succ n ih =>
    intro p m a ha
    rw [empty_cells, ih (p + 2) _ a (by omega), Function.update_of_ne (by omega), Function.update_of_ne (by omega)]

/-- Every character that is cleared is zero. -/
theorem empty_cells_inside (color : UInt8) (n : Nat) : ∀ (p : Nat) (m : Nat → UInt8) (k : Nat), k < n →
    empty_cells color p n m (p + 2 * k) = 0 := by
  induction n with
  | zero =>
    intro p m k hk
    omega
  | succ n ih =>
    intro p m k hk
    rw [empty_cells]
    cases k with
    | zero =>
      rw [empty_cells_outside color n (p + 2) _ (p + 2 * 0) (by omega)]
      simp
    | succ k =>
      have := ih (p + 2) (Function.update (Function.update m p 0) (p + 1) color) k (by omega)
      rwa [show p + 2 * (k + 1) = p + 2 + 2 * k by omega]

/-! ## One step -/

/-- The screen shows the last rows of the terminal `t`. -/
structure Shows (t : Terminal) (s : Screen) : Prop where
  inside : t.col ≤ 80
  below : ∀ r c, t.row < r → t.cell r c = 0
  x : s.text_x = t.col
  y : s.text_y + t.top = t.row
  window : ∀ r c, r < 25 → c < 80 → s.char r c = t.cell (t.top + r) c
  setup : s.setup = true

theorem Shows.text_y_lt {t : Terminal} {s : Screen} (h : Shows t s) : s.text_y < 25 := by
  have := h.y
  unfold Terminal.top at this
  omega

theorem Shows.new_line {t : Terminal} {s : Screen} (h : Shows t s) : Shows t.newline (new_line s) := by
  have hy := h.y
  have hlt := h.text_y_lt
  unfold Terminal.top at hy
  by_cases hlast : s.text_y = LINES - 1
  · have hrow : 24 ≤ t.row := by
      simp only [LINES] at hlast
      omega
    have htop : t.newline.top = t.top + 1 := by
      simp only [Terminal.top, Terminal.newline]
      omega
    unfold Vga.new_line
    rw [if_pos hlast]
    refine ⟨by simp [Terminal.newline], fun r c hr => h.below r c ?_, rfl, ?_, ?_, h.setup⟩
    · simp only [Terminal.newline] at hr
      omega
    · rw [htop]
      simp only [Terminal.newline]
      have := h.y
      omega
    · intro r c hr hc
      rw [htop]
      simp only [Screen.char, LINES, COLUMNS, Terminal.newline]
      by_cases hr' : r = 24
      · -- the row that comes up from below is empty
        subst hr'
        rw [show VIDEO_BASE + (24 * 80 + c) * 2 = VIDEO_BASE + (25 - 1) * 80 * 2 + 2 * c by omega,
          empty_cells_inside _ _ _ _ _ hc, h.below _ _ (by unfold Terminal.top; omega)]
      · rw [empty_cells_outside _ _ _ _ _ (by omega), memcpy_apply _ _ _ _ _ (by omega), if_pos (by omega)]
        have := h.window (r + 1) c (by omega) hc
        rw [show t.top + 1 + r = t.top + (r + 1) by omega, ← this]
        simp only [Screen.char, COLUMNS]
        exact congrArg s.mem (by omega)
  · have htop : t.newline.top = t.top := by
      simp only [Terminal.top, Terminal.newline]
      simp only [LINES] at hlast
      omega
    unfold Vga.new_line
    rw [if_neg hlast, add32_eq (show s.text_y + 1 < 2 ^ 32 by omega)]
    refine ⟨by simp [Terminal.newline], fun r c hr => h.below r c ?_, rfl, ?_, ?_, h.setup⟩
    · simp only [Terminal.newline] at hr
      omega
    · rw [htop]
      simp only [Terminal.newline]
      have := h.y
      omega
    · intro r c hr hc
      rw [htop]
      exact h.window r c hr hc

/-- A byte put in front of column 80. -/
theorem Shows.put {t : Terminal} {s : Screen} (h : Shows t s) (hcol : t.col < 80) (c : UInt8) :
    Shows (t.put c)
      { s with
        mem := Function.update (Function.update s.mem (add32 VIDEO_BASE ((s.text_y * COLUMNS + s.text_x) * 2)) c)
          (add32 (add32 VIDEO_BASE ((s.text_y * COLUMNS + s.text_x) * 2)) 1) s.current_color
        text_x := add32 s.text_x 1 } := by
  have hy := h.text_y_lt
  have hx := h.x
  have haddr : add32 VIDEO_BASE ((s.text_y * COLUMNS + s.text_x) * 2) =
      VIDEO_BASE + (s.text_y * 80 + s.text_x) * 2 := by
    refine add32_eq ?_
    simp only [VIDEO_BASE, COLUMNS]
    omega
  have hnext : add32 (VIDEO_BASE + (s.text_y * 80 + s.text_x) * 2) 1 =
      VIDEO_BASE + (s.text_y * 80 + s.text_x) * 2 + 1 := by
    refine add32_eq ?_
    simp only [VIDEO_BASE]
    omega
  rw [haddr, hnext, add32_eq (show s.text_x + 1 < 2 ^ 32 by omega)]
  refine ⟨by simp only [Terminal.put]; omega, fun r k hr => ?_, by simp only [Terminal.put]; omega, h.y, ?_, h.setup⟩
  · simp only [Terminal.put] at hr ⊢
    rw [Function.update_of_ne (by omega)]
    exact h.below r k hr
  · intro r k hr hk
    have hwin := h.window r k hr hk
    have htop : (t.put c).top = t.top := rfl
    rw [htop]
    simp only [Screen.char, COLUMNS, Terminal.put] at hwin ⊢
    rw [Function.update_of_ne (by omega)]
    by_cases hrow : t.top + r = t.row
    · have hr' : r = s.text_y := by
        have := h.y
        omega
      rw [hrow, Function.update_self]
      by_cases hk' : k = t.col
      · subst hk'
        rw [hr', hx]
        simp
      · rw [Function.update_of_ne hk', Function.update_of_ne (by omega), hwin, hrow]
    · have hr' : r ≠ s.text_y := by
        have := h.y
        omega
      rw [Function.update_of_ne hrow, Function.update_of_ne (by omega), hwin]

/-- An ordinary byte, where there is room for the call that wraps. -/
theorem Shows.ordinary {t : Terminal} {s : Screen} (h : Shows t s) {c : UInt8} (depth : Nat) (h8 : c ≠ 0x08)
    (h10 : c ≠ 0x0a) (h13 : c ≠ 0x0d) (h9 : c ≠ 0x09) :
    ∃ s', text_putc_nested (depth + 2) c s = .ok s' ∧ Shows (t.ordinary c) s' := by
  have hwrap : ∀ d s, s.text_x = COLUMNS →
      text_putc_nested (d + 1) c s = (text_putc_nested d 0x0a s).bind fun s => text_putc_nested d c s := by
    intro d s hx
    rw [text_putc_nested, if_neg h8, if_neg h10, if_neg h13, if_neg h9, if_pos hx]
    rfl
  have hput : ∀ d s, s.text_x ≠ COLUMNS → ∃ s', text_putc_nested (d + 1) c s = .ok s' ∧
      ∀ {t}, Shows t s → t.col < 80 → Shows (t.put c) s' := by
    intro d s hx
    rw [text_putc_nested, if_neg h8, if_neg h10, if_neg h13, if_neg h9, if_neg hx]
    exact ⟨_, rfl, fun h hcol => h.put hcol c⟩
  unfold Terminal.ordinary
  by_cases hcol : t.col = 80
  · have hline : text_putc_nested (depth + 1) 0x0a s = .ok (Vga.new_line s) := by
      rw [text_putc_nested]
      rfl
    have hzero : (Vga.new_line s).text_x ≠ COLUMNS := by
      rw [h.new_line.x]
      simp [Terminal.newline, COLUMNS]
    obtain ⟨s', hs', hshow⟩ := hput depth _ hzero
    rw [if_pos hcol, hwrap _ _ (h.x.trans hcol), hline]
    exact ⟨s', hs', hshow h.new_line (by simp [Terminal.newline])⟩
  · rw [if_neg hcol]
    obtain ⟨s', hs', hshow⟩ := hput (depth + 1) s fun hx => hcol (h.x.symm.trans hx)
    have := h.inside
    exact ⟨s', hs', hshow h (by omega)⟩

/-- One byte for the driver is one byte for the terminal. -/
theorem text_putc_shows {t : Terminal} {s : Screen} (h : Shows t s) {c : UInt8} (h8 : c ≠ 0x08) :
    ∃ s', text_putc c s = .ok s' ∧ Shows (t.write c) s' := by
  unfold Terminal.write
  by_cases h10 : c = 0x0a
  · subst h10
    exact ⟨_, rfl, h.new_line⟩
  rw [if_neg h10]
  by_cases h13 : c = 0x0d
  · subst h13
    exact ⟨_, rfl, ⟨Nat.zero_le _, h.below, rfl, h.y, h.window, h.setup⟩⟩
  rw [if_neg h13]
  by_cases h9 : c = 0x09
  · subst h9
    have hzero : ∀ {t : Terminal} {s : Screen}, Shows t s →
        ∃ s', text_putc_nested 2 0 s = .ok s' ∧ Shows (t.ordinary 0) s' :=
      fun h => h.ordinary 0 (by decide) (by decide) (by decide) (by decide)
    obtain ⟨s₁, h₁, hs₁⟩ := hzero h
    obtain ⟨s₂, h₂, hs₂⟩ := hzero hs₁
    obtain ⟨s₃, h₃, hs₃⟩ := hzero hs₂
    obtain ⟨s₄, h₄, hs₄⟩ := hzero hs₃
    refine ⟨s₄, ?_, hs₄⟩
    unfold text_putc
    rw [text_putc_nested]
    rw [if_neg (by decide), if_neg (by decide), if_neg (by decide), if_pos rfl]
    show (text_putc_nested 2 0 s).bind (fun s => (text_putc_nested 2 0 s).bind fun s =>
      (text_putc_nested 2 0 s).bind fun s => (text_putc_nested 2 0 s).bind .ok) = _
    rw [h₁, Except.bind, h₂, Except.bind, h₃, Except.bind, h₄]
    rfl
  · rw [if_neg h9]
    exact h.ordinary 1 h8 h10 h13 h9

/-! ## Every sequence of writes -/

theorem text_clear_mem (s : Screen) {r c : Nat} (hr : r < 25) (hc : c < 80) :
    (text_clear s).mem (VIDEO_BASE + (r * COLUMNS + c) * 2) = 0 := by
  have hlt : r * COLUMNS + c < COLUMNS * LINES := by
    simp only [COLUMNS, LINES]
    omega
  have hcell := empty_cells_inside (get_color T_WHITE T_BLACK) _ VIDEO_BASE s.mem _ hlt
  rw [Nat.mul_comm 2] at hcell
  unfold text_clear
  dsimp only
  exact hcell

theorem init_vga_mem {s : Screen} (h : s.setup = false) : (init_vga s).mem = (text_clear s).mem := by
  unfold init_vga
  rw [if_neg (by simp [h])]

theorem init_vga_shows {s : Screen} (h : s.setup = false) : Shows .blank (init_vga s) := by
  have hcells : ∀ r c, r < 25 → c < 80 → (init_vga s).char r c = 0 := by
    intro r c hr hc
    rw [Screen.char, init_vga_mem h, text_clear_mem s hr hc]
  refine ⟨by simp [Terminal.blank], fun _ _ _ => rfl, ?_, ?_, hcells, ?_⟩ <;> simp [init_vga, h, text_clear,
    Terminal.blank, Terminal.top]

theorem vga_write_shows (buf : List UInt8) : ∀ {t : Terminal} {s : Screen}, Shows t s → 0x08 ∉ buf →
    ∃ s', vga_write buf s = .ok s' ∧ Shows (buf.foldl Terminal.write t) s' := by
  induction buf with
  | nil =>
    intro t s h _
    refine ⟨s, ?_, h⟩
    rw [vga_write, if_pos h.setup]
    rfl
  | cons c buf ih =>
    intro t s h hbuf
    obtain ⟨h8, hbuf⟩ := not_or.1 (mt List.mem_cons.2 hbuf)
    obtain ⟨s₁, h₁, hs₁⟩ := text_putc_shows h (Ne.symm h8)
    obtain ⟨s₂, h₂, hs₂⟩ := ih hs₁ hbuf
    refine ⟨s₂, ?_, hs₂⟩
    rw [vga_write, if_pos hs₁.setup] at h₂
    rw [vga_write, if_pos h.setup, List.foldlM_cons, h₁]
    exact h₂

/-- After any writes without a backspace the 25 rows of the screen are the window on the
terminal that got the same bytes, and the cursor is the terminal's cursor in it. -/
theorem vga_window (s : Screen) (h : s.setup = false) (bufs : List (List UInt8)) (hb : ∀ buf ∈ bufs, 0x08 ∉ buf) :
    ∃ s', bufs.foldlM (fun s buf => vga_write buf s) (init_vga s) = .ok s' ∧
      let t := bufs.flatten.foldl Terminal.write .blank
      (∀ r c, r < 25 → c < 80 → s'.char r c = t.cell (t.top + r) c) ∧
        s'.text_x = t.col ∧ s'.text_y = t.row - t.top := by
  have hrun : ∀ (bufs : List (List UInt8)) {t : Terminal} {s : Screen}, Shows t s → (∀ buf ∈ bufs, 0x08 ∉ buf) →
      ∃ s', bufs.foldlM (fun s buf => vga_write buf s) s = .ok s' ∧ Shows (bufs.flatten.foldl Terminal.write t) s' := by
    intro bufs
    induction bufs with
    | nil => exact fun h _ => ⟨_, rfl, h⟩
    | cons buf bufs ih =>
      intro t s h hb
      obtain ⟨s₁, h₁, hs₁⟩ := vga_write_shows buf h (hb buf (by simp))
      obtain ⟨s₂, h₂, hs₂⟩ := ih hs₁ fun b hb' => hb b (by simp [hb'])
      refine ⟨s₂, ?_, by rwa [List.flatten_cons, List.foldl_append]⟩
      rw [List.foldlM_cons, h₁]
      exact h₂
  obtain ⟨s', hs', hshows⟩ := hrun bufs (init_vga_shows h) hb
  refine ⟨s', hs', hshows.window, hshows.x, ?_⟩
  have := hshows.y
  omega

/-- Memory as it may be before the driver starts. -/
def poweredOn : Screen := ⟨fun _ => 7, 0, 0, 0, false⟩

theorem vga_window_tab : ∃ s', [[0x41, 0x09], [0x42]].foldlM (fun s buf => vga_write buf s)
    (init_vga poweredOn) = .ok s' ∧ s'.char 0 5 = 0x42 ∧ s'.text_x = 6 ∧ s'.text_y = 0 := by
  obtain ⟨s', hrun, hcells, hx, hy⟩ := vga_window poweredOn rfl [[0x41, 0x09], [0x42]] (by decide)
  exact ⟨s', hrun, (hcells 0 5 (by decide) (by decide)).trans (by decide), hx, hy⟩

end Ulmix.Vga
