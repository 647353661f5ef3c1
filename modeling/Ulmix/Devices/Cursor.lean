import Ulmix.Devices.Vga
/-!
# Where the text screen is written (`drivers/vga.c`)

The driver once more, with every address it stores to on record; without the record
it is the driver (`text_putc_traced_screen`). The cursor stays on the screen, and the
stores in the 4000 bytes of video memory, as long as no backspace arrives where the
cursor has nothing to go back to: in column 0, where the counter wraps, or behind the
last cell of the screen, which a backspace clears although it is none.
-/
open Ulmix.Lib

namespace Ulmix.Vga

/-! ## The driver, with its stores -/

/-- The driver's state, and the addresses stored to so far. -/
structure Traced where
  screen : Screen
  stores : List Nat

namespace Traced

/-- `*p = v` -/
def store (p : Nat) (v : UInt8) (t : Traced) : Traced where
  screen := { t.screen with mem := Function.update t.screen.mem p v }
  stores := t.stores ++ [p]

def memcpy : Nat → Nat → Nat → Traced → Traced
  | _, _, 0, t => t
  | dest, src, n + 1, t => memcpy (dest + 1) (src + 1) n (t.store dest (t.screen.mem src))

def empty_cells (color : UInt8) : Nat → Nat → Traced → Traced
  | _, 0, t => t
  | p, n + 1, t => empty_cells color (p + 2) n ((t.store p 0).store (p + 1) color)

/-- `text_x = x, text_y = y` -/
def move (x y : Nat) (t : Traced) : Traced := { t with screen := { t.screen with text_x := x, text_y := y } }

def text_clear (t : Traced) : Traced :=
  (t.move 0 0).empty_cells (get_color T_WHITE T_BLACK) VIDEO_BASE (COLUMNS * LINES)

def new_line (t : Traced) : Traced :=
  if t.screen.text_y = LINES - 1 then
    ((t.move 0 t.screen.text_y).memcpy VIDEO_BASE (VIDEO_BASE + COLUMNS * 2) ((LINES - 1) * COLUMNS * 2)).empty_cells
      t.screen.current_color (VIDEO_BASE + (LINES - 1) * COLUMNS * 2) COLUMNS
  else t.move 0 (add32 t.screen.text_y 1)

def text_putc_nested : Nat → UInt8 → Traced → Except Fault Traced
  | 0, _, _ => .error .diverges
  | depth + 1, c, t =>
    let s := t.screen
    let mptr := add32 VIDEO_BASE ((s.text_y * COLUMNS + s.text_x) * 2)
    if c = 0x08 then
      .ok (((t.store mptr 0).store (sub32 mptr 1) s.current_color).move (sub32 s.text_x 1) s.text_y)
    else if c = 0x0a then .ok t.new_line
    else if c = 0x0d then .ok (t.move 0 s.text_y)
    else if c = 0x09 then (List.replicate 4 0).foldlM (fun t c => text_putc_nested depth c t) t
    else if s.text_x = COLUMNS then do
      let t ← text_putc_nested depth 0x0a t
      text_putc_nested depth c t
    else .ok (((t.store mptr c).store (add32 mptr 1) s.current_color).move (add32 s.text_x 1) s.text_y)

def text_putc (c : UInt8) (t : Traced) : Except Fault Traced := text_putc_nested 3 c t

def init_vga (t : Traced) : Traced :=
  if t.screen.setup then t
  else { t.text_clear with
    screen := { t.text_clear.screen with setup := true, current_color := get_color T_CYAN T_BLACK } }

/-- The loop of `vga_write`. -/
def put_all (buf : List UInt8) (t : Traced) : Except Fault Traced := buf.foldlM (fun t c => text_putc c t) t

def vga_write (buf : List UInt8) (t : Traced) : Except Fault Traced :=
  put_all buf (if t.screen.setup then t else init_vga t)

/-- One call after the other. -/
def writes (bufs : List (List UInt8)) (t : Traced) : Except Fault Traced := bufs.foldlM (fun t buf => vga_write buf t) t

/-! ### Without the record -/

theorem memcpy_screen (n : Nat) : ∀ (dest src : Nat) (t : Traced),
    (t.memcpy dest src n).screen = { t.screen with mem := Vga.memcpy dest src n t.screen.mem } := by
  induction n with
  | zero =>
    intro dest src t
    rfl
  | succ n ih =>
    intro dest src t
    rw [memcpy, ih, Vga.memcpy]
    rfl

theorem empty_cells_screen (color : UInt8) (n : Nat) : ∀ (p : Nat) (t : Traced),
    (t.empty_cells color p n).screen = { t.screen with mem := Vga.empty_cells color p n t.screen.mem } := by
  induction n with
  | zero =>
    intro p t
    rfl
  | succ n ih =>
    intro p t
    rw [empty_cells, ih, Vga.empty_cells]
    rfl

theorem new_line_screen (t : Traced) : t.new_line.screen = Vga.new_line t.screen := by
  unfold new_line Vga.new_line
  split
  · rw [empty_cells_screen, memcpy_screen]
    dsimp only [move]
  · rfl

/-- Forget the record. -/
def erase (r : Except Fault Traced) : Except Fault Screen := r.map screen

theorem erase_bind (r : Except Fault Traced) (f : Traced → Except Fault Traced) (g : Screen → Except Fault Screen)
    (h : ∀ t, erase (f t) = g t.screen) : erase (r >>= f) = erase r >>= g := by
  cases r with
  | error e => rfl
  | ok t => exact h t

theorem erase_foldlM {α : Type} {f : Traced → α → Except Fault Traced} {g : Screen → α → Except Fault Screen}
    (h : ∀ t c, erase (f t c) = g t.screen c) (l : List α) : ∀ t, erase (l.foldlM f t) = l.foldlM g t.screen := by
  induction l with
  | nil =>
    intro t
    rfl
  | cons c l ih =>
    intro t
    rw [List.foldlM_cons, List.foldlM_cons, ← h t c]
    exact erase_bind _ _ _ ih

/-- Every byte does to the screen what the driver does. -/
theorem text_putc_nested_screen (depth : Nat) : ∀ (c : UInt8) (t : Traced),
    erase (text_putc_nested depth c t) = Vga.text_putc_nested depth c t.screen := by
  induction depth with
  | zero =>
    intro c t
    rfl
  | succ depth ih =>
    intro c t
    unfold text_putc_nested Vga.text_putc_nested
    dsimp only
    by_cases h8 : c = 0x08
    · rw [if_pos h8, if_pos h8]
      rfl
    by_cases h10 : c = 0x0a
    · rw [if_neg h8, if_pos h10, if_neg h8, if_pos h10]
      exact congrArg Except.ok (new_line_screen t)
    by_cases h13 : c = 0x0d
    · rw [if_neg h8, if_neg h10, if_pos h13, if_neg h8, if_neg h10, if_pos h13]
      rfl
    rw [if_neg h8, if_neg h10, if_neg h13, if_neg h8, if_neg h10, if_neg h13]
    by_cases h9 : c = 0x09
    · rw [if_pos h9, if_pos h9]
      exact erase_foldlM (fun t c => ih c t) _ t
    rw [if_neg h9, if_neg h9]
    by_cases hx : t.screen.text_x = COLUMNS
    · rw [if_pos hx, if_pos hx, ← ih 0x0a t]
      exact erase_bind _ _ _ fun t => ih c t
    · rw [if_neg hx, if_neg hx]
      rfl

theorem text_putc_screen (c : UInt8) (t : Traced) : erase (text_putc c t) = Vga.text_putc c t.screen :=
  text_putc_nested_screen 3 c t

theorem text_clear_screen (t : Traced) : t.text_clear.screen = Vga.text_clear t.screen := by
  unfold text_clear Vga.text_clear
  rw [empty_cells_screen]
  dsimp only [move]

theorem init_vga_screen (t : Traced) : t.init_vga.screen = Vga.init_vga t.screen := by
  unfold init_vga Vga.init_vga
  split
  · rfl
  · rw [← text_clear_screen]

theorem vga_write_screen (buf : List UInt8) (t : Traced) : erase (vga_write buf t) = Vga.vga_write buf t.screen := by
  unfold vga_write Vga.vga_write put_all
  rw [erase_foldlM (g := fun s c => Vga.text_putc c s) fun t c => text_putc_screen c t]
  congr 1
  split
  · rfl
  · exact init_vga_screen t

/-- A sequence of calls shows what the driver shows. -/
theorem writes_screen (bufs : List (List UInt8)) (t : Traced) :
    erase (writes bufs t) = bufs.foldlM (fun s buf => Vga.vga_write buf s) t.screen :=
  erase_foldlM (fun t buf => vga_write_screen buf t) bufs t

/-! ## On the screen -/

/-- The 4000 bytes of video memory. -/
def Inside (p : Nat) : Prop := VIDEO_BASE ≤ p ∧ p < VIDEO_BASE + 4000

/-- The cursor is on the screen or behind a row of it, and nothing was stored elsewhere. -/
structure Confined (t : Traced) : Prop where
  x : t.screen.text_x ≤ 80
  y : t.screen.text_y ≤ 24
  stores : ∀ p ∈ t.stores, Inside p

/-- The cursor is where a backspace leads off the screen. -/
def AtEdge (t : Traced) : Prop := t.screen.text_x = 0 ∨ (t.screen.text_x = 80 ∧ t.screen.text_y = 24)

namespace Confined

variable {t : Traced} {p n : Nat} {v : UInt8}

theorem store (h : t.Confined) (hp : Inside p) (v : UInt8) : (t.store p v).Confined where
  x := h.x
  y := h.y
  stores q hq := by
    rcases List.mem_append.1 hq with hold | hnew
    · exact h.stores q hold
    · rw [List.mem_singleton.1 hnew]
      exact hp

theorem move (h : t.Confined) {x y : Nat} (hx : x ≤ 80) (hy : y ≤ 24) : (t.move x y).Confined := ⟨hx, hy, h.stores⟩

theorem memcpy (n : Nat) : ∀ {dest : Nat} (src : Nat) {t : Traced}, t.Confined → VIDEO_BASE ≤ dest →
    dest + n ≤ VIDEO_BASE + 4000 → (t.memcpy dest src n).Confined := by
  induction n with
  | zero => exact fun _ _ h _ _ => h
  | succ n ih =>
    intro dest src t h hlo hhi
    exact ih _ (h.store ⟨hlo, by omega⟩ _) (by omega) (by omega)

theorem empty_cells (color : UInt8) (n : Nat) : ∀ {p : Nat} {t : Traced}, t.Confined → VIDEO_BASE ≤ p →
    p + 2 * n ≤ VIDEO_BASE + 4000 → (t.empty_cells color p n).Confined := by
  induction n with
  | zero => exact fun h _ _ => h
  | succ n ih =>
    intro p t h hlo hhi
    exact ih ((h.store ⟨hlo, by omega⟩ _).store ⟨by omega, by omega⟩ _) (by omega) (by omega)

theorem new_line (h : t.Confined) : t.new_line.Confined := by
  have hy := h.y
  unfold Traced.new_line
  by_cases hlast : t.screen.text_y = LINES - 1
  · rw [if_pos hlast]
    refine empty_cells _ _ (memcpy _ _ (h.move (by omega) hy) le_rfl ?_) ?_ ?_ <;> simp [COLUMNS, LINES]
  · rw [if_neg hlast]
    simp only [LINES] at hlast
    rw [add32_eq (by omega)]
    exact h.move (by omega) (by omega)

/-- The address of a cell, which does not wrap. -/
theorem cell (h : t.Confined) : add32 VIDEO_BASE ((t.screen.text_y * COLUMNS + t.screen.text_x) * 2) =
    VIDEO_BASE + (t.screen.text_y * 80 + t.screen.text_x) * 2 := by
  have hx := h.x
  have hy := h.y
  refine add32_eq ?_
  simp only [VIDEO_BASE, COLUMNS]
  omega

/-- A byte that is none of the special ones, where there is room for the call that wraps. -/
theorem ordinary (h : t.Confined) {c : UInt8} (depth : Nat) (h8 : c ≠ 0x08) (h10 : c ≠ 0x0a) (h13 : c ≠ 0x0d)
    (h9 : c ≠ 0x09) : ∃ t', text_putc_nested (depth + 2) c t = .ok t' ∧ t'.Confined := by
  have hput : ∀ (d : Nat) (t : Traced), t.Confined → t.screen.text_x ≠ COLUMNS →
      ∃ t', text_putc_nested (d + 1) c t = .ok t' ∧ t'.Confined := by
    intro d t h hcol
    have hx := h.x
    have hy := h.y
    unfold text_putc_nested
    dsimp only
    rw [if_neg h8, if_neg h10, if_neg h13, if_neg h9, if_neg hcol, h.cell]
    simp only [COLUMNS] at hcol
    have hbase : VIDEO_BASE = 0xb8000 := rfl
    rw [add32_eq (show VIDEO_BASE + (t.screen.text_y * 80 + t.screen.text_x) * 2 + 1 < 2 ^ 32 by omega),
      add32_eq (show t.screen.text_x + 1 < 2 ^ 32 by omega)]
    refine ⟨_, rfl, ((h.store ⟨by omega, ?_⟩ _).store ⟨by omega, ?_⟩ _).move (by omega) hy⟩ <;> omega
  by_cases hcol : t.screen.text_x = COLUMNS
  · have hzero : t.new_line.screen.text_x ≠ COLUMNS := by
      rw [new_line_screen]
      unfold Vga.new_line
      split <;> simp [COLUMNS]
    obtain ⟨t', ht', hconf⟩ := hput depth t.new_line h.new_line hzero
    have hline : text_putc_nested (depth + 1) 0x0a t = .ok t.new_line := by
      rw [text_putc_nested]
      rfl
    refine ⟨t', ?_, hconf⟩
    rw [text_putc_nested, if_neg h8, if_neg h10, if_neg h13, if_neg h9, if_pos hcol, hline]
    exact ht'
  · exact hput _ t h hcol

/-- A backspace with something to go back to. -/
theorem backspace (h : t.Confined) (hedge : ¬ t.AtEdge) : ∃ t', text_putc 0x08 t = .ok t' ∧ t'.Confined := by
  have hx := h.x
  have hy := h.y
  have hcell := h.cell
  have hbase : VIDEO_BASE = 0xb8000 := rfl
  unfold AtEdge at hedge
  obtain ⟨hpos, hlast⟩ := not_or.1 hedge
  refine ⟨_, rfl, ((h.store ?_ _).store ?_ _).move ?_ hy⟩
  · rw [hcell]
    constructor <;> omega
  · rw [hcell, sub32_eq (by omega) (by omega)]
    constructor <;> omega
  · rw [sub32_eq (by omega) (by omega)]
    omega

/-- One byte, unless it is a backspace at the edge. -/
theorem text_putc (h : t.Confined) {c : UInt8} (hc : c = 0x08 → ¬ t.AtEdge) :
    ∃ t', text_putc c t = .ok t' ∧ t'.Confined := by
  by_cases h8 : c = 0x08
  · subst h8
    exact h.backspace (hc rfl)
  by_cases h10 : c = 0x0a
  · subst h10
    exact ⟨_, rfl, h.new_line⟩
  by_cases h13 : c = 0x0d
  · subst h13
    exact ⟨_, rfl, h.move (by omega) h.y⟩
  by_cases h9 : c = 0x09
  · -- a tab is four zeros
    subst h9
    have hzero : ∀ {t : Traced}, t.Confined → ∃ t', text_putc_nested 2 0 t = .ok t' ∧ t'.Confined :=
      fun h => h.ordinary 0 (by decide) (by decide) (by decide) (by decide)
    have hzeros : ∀ (n : Nat) {t : Traced}, t.Confined →
        ∃ t', (List.replicate n (0 : UInt8)).foldlM (fun t c => text_putc_nested 2 c t) t = .ok t' ∧ t'.Confined := by
      intro n
      induction n with
      | zero => exact fun h => ⟨_, rfl, h⟩
      | succ n ih =>
        intro t h
        obtain ⟨t₁, h₁, hconf⟩ := hzero h
        obtain ⟨t₂, h₂, hconf⟩ := ih hconf
        refine ⟨t₂, ?_, hconf⟩
        rw [List.replicate_succ, List.foldlM_cons, h₁]
        exact h₂
    exact hzeros 4 h
  · exact h.ordinary 1 h8 h10 h13 h9

/-- A backspace at the edge leaves the screen. -/
theorem backspace_at_edge (h : t.Confined) (hedge : t.AtEdge) {t' : Traced} (ht : Traced.text_putc 0x08 t = .ok t') :
    ¬ t'.Confined := by
  have hcell := h.cell
  cases ht
  intro h'
  rcases hedge with hzero | ⟨hx, hy⟩
  · -- the counter of the column wraps
    have hx' := h'.x
    dsimp only [Traced.move] at hx'
    rw [hzero] at hx'
    exact absurd hx' (by decide)
  · have hlast := h'.stores (add32 VIDEO_BASE ((t.screen.text_y * COLUMNS + t.screen.text_x) * 2))
      (by simp [Traced.move, Traced.store])
    rw [hcell, hx, hy] at hlast
    exact absurd hlast.2 (by decide)

end Confined

/-! ## Every sequence of calls -/

/-- The static variables as they are before the first call. -/
structure Booted (s : Screen) : Prop where
  setup : s.setup = false
  x : s.text_x = 0
  y : s.text_y = 0

/-- The calls as far as the byte `n`. -/
def cut : Nat → List (List UInt8) → List (List UInt8)
  | _, [] => []
  | n, buf :: bufs => buf.take n :: cut (n - buf.length) bufs

theorem cut_flatten (bufs : List (List UInt8)) : ∀ n, (cut n bufs).flatten = bufs.flatten.take n := by
  induction bufs with
  | nil =>
    intro n
    simp [cut]
  | cons buf bufs ih =>
    intro n
    rw [cut, List.flatten_cons, List.flatten_cons, ih, List.take_append]

theorem init_vga_confined {s : Screen} (h : Booted s) : (init_vga ⟨s, []⟩).Confined := by
  have hcells : (Traced.text_clear ⟨s, []⟩).Confined := by
    refine Confined.empty_cells _ _ ⟨?_, ?_, ?_⟩ le_rfl ?_
    · simp [move]
    · simp [move]
    · simp [move]
    · simp [COLUMNS, LINES]
  unfold init_vga
  rw [if_neg (by simp [h.setup])]
  constructor
  · dsimp only
    exact hcells.x
  · dsimp only
    exact hcells.y
  · dsimp only
    exact hcells.stores

theorem text_putc_nested_setup (depth : Nat) : ∀ {c : UInt8} {t t' : Traced}, text_putc_nested depth c t = .ok t' →
    t'.screen.setup = t.screen.setup := by
  induction depth with
  | zero =>
    intro c t t' h
    cases h
  | succ depth ih =>
    intro c t t' h
    have hline : t.new_line.screen.setup = t.screen.setup := by
      rw [new_line_screen]
      unfold Vga.new_line
      split <;> rfl
    have hzeros : ∀ (l : List UInt8) {t t' : Traced}, l.foldlM (fun t c => text_putc_nested depth c t) t = .ok t' →
        t'.screen.setup = t.screen.setup := by
      intro l
      induction l with
      | nil =>
        intro t t' h
        cases h
        rfl
      | cons c l ih' =>
        intro t t' h
        rw [List.foldlM_cons] at h
        cases h₁ : text_putc_nested depth c t with
        | error e =>
          rw [h₁] at h
          cases h
        | ok t₁ =>
          rw [h₁] at h
          exact (ih' h).trans (ih h₁)
    unfold text_putc_nested at h
    dsimp only at h
    split at h
    · cases h
      rfl
    · split at h
      · cases h
        exact hline
      · split at h
        · cases h
          rfl
        · split at h
          · exact hzeros _ h
          · split at h
            · cases h₁ : text_putc_nested depth 0x0a t with
              | error e =>
                rw [h₁] at h
                cases h
              | ok t₁ =>
                rw [h₁] at h
                exact (ih h).trans (ih h₁)
            · cases h
              rfl

theorem put_all_append (a b : List UInt8) (t : Traced) : put_all (a ++ b) t = put_all a t >>= put_all b := by
  unfold put_all
  rw [List.foldlM_append]

theorem put_all_setup (buf : List UInt8) :
    ∀ {t t' : Traced}, put_all buf t = .ok t' → t'.screen.setup = t.screen.setup := by
  induction buf with
  | nil =>
    intro t t' h
    cases h
    rfl
  | cons c buf ih =>
    intro t t' h
    unfold put_all at h
    rw [List.foldlM_cons] at h
    cases h₁ : text_putc c t with
    | error e =>
      rw [h₁] at h
      cases h
    | ok t₁ =>
      rw [h₁] at h
      exact (ih h).trans (text_putc_nested_setup 3 h₁)

/-- Calls are as good as one call with all the bytes. -/
theorem writes_eq (bufs : List (List UInt8)) : ∀ {t : Traced}, t.screen.setup = true →
    writes bufs t = put_all bufs.flatten t := by
  induction bufs with
  | nil =>
    intro t _
    rfl
  | cons buf bufs ih =>
    intro t h
    have hfirst : vga_write buf t = put_all buf t := by
      unfold vga_write
      rw [if_pos h]
    have hcons : writes (buf :: bufs) t = vga_write buf t >>= writes bufs := rfl
    rw [hcons, hfirst, List.flatten_cons, put_all_append]
    cases h₁ : put_all buf t with
    | error e => rfl
    | ok t₁ => exact ih ((put_all_setup buf h₁).trans h)

/-- The first call sets the screen up. -/
theorem writes_cut {s : Screen} (h : Booted s) {bufs : List (List UInt8)} (hne : bufs ≠ []) (n : Nat) :
    writes (cut n bufs) ⟨s, []⟩ = put_all (bufs.flatten.take n) (init_vga ⟨s, []⟩) := by
  have hready : (init_vga ⟨s, []⟩).screen.setup = true := by
    rw [init_vga_screen]
    simp [Vga.init_vga, h.setup]
  obtain ⟨buf, rest, rfl⟩ := List.exists_cons_of_ne_nil hne
  have hfirst : ∀ b, vga_write b ⟨s, []⟩ = vga_write b (init_vga ⟨s, []⟩) := by
    intro b
    unfold vga_write
    rw [if_neg (by simp [h.setup]), if_pos hready]
  have hwrites : writes (cut n (buf :: rest)) ⟨s, []⟩ = writes (cut n (buf :: rest)) (init_vga ⟨s, []⟩) := by
    show vga_write (buf.take n) _ >>= _ = vga_write (buf.take n) _ >>= _
    rw [hfirst]
  rw [hwrites, writes_eq _ hready, cut_flatten]

theorem put_all_confined_iff {start : Traced} (h : start.Confined) (bytes : List UInt8) :
    (∀ n, ∃ t, put_all (bytes.take n) start = .ok t ∧ t.Confined) ↔
      ∀ n t, bytes[n]? = some 0x08 → put_all (bytes.take n) start = .ok t → ¬ t.AtEdge := by
  have hnext : ∀ {n : Nat} {c : UInt8} {t : Traced}, bytes[n]? = some c → put_all (bytes.take n) start = .ok t →
      put_all (bytes.take (n + 1)) start = text_putc c t := by
    intro n c t hc ht
    rw [List.take_add_one, hc, put_all_append, ht]
    show text_putc c t >>= pure = _
    cases text_putc c t <;> rfl
  constructor
  · intro hall n t hc ht hedge
    obtain ⟨t', ht', hconf⟩ := hall n
    cases ht.symm.trans ht'
    obtain ⟨t'', ht'', hconf'⟩ := hall (n + 1)
    exact hconf.backspace_at_edge hedge ((hnext hc ht).symm.trans ht'') hconf'
  · intro hedge n
    induction n with
    | zero => exact ⟨start, by rw [List.take_zero]; rfl, h⟩
    | succ n ih =>
      obtain ⟨t, ht, hconf⟩ := ih
      cases hc : bytes[n]? with
      | none =>
        refine ⟨t, ?_, hconf⟩
        rw [List.take_add_one, hc]
        simpa using ht
      | some c =>
        obtain ⟨t', ht', hconf'⟩ := hconf.text_putc (c := c) fun h8 => hedge n t (by rw [hc, h8]) ht
        exact ⟨t', (hnext hc ht).trans ht', hconf'⟩

/-- From boot on, whatever is written: after every byte the cursor is on the screen and all stores
were inside video memory, exactly when no backspace came in column 0 or behind the last cell. -/
theorem vga_confined_iff {s : Screen} (h : Booted s) (bufs : List (List UInt8)) :
    (∀ n, ∃ t, writes (cut n bufs) ⟨s, []⟩ = .ok t ∧ t.Confined) ↔
      ∀ n t, bufs.flatten[n]? = some 0x08 → writes (cut n bufs) ⟨s, []⟩ = .ok t → ¬ t.AtEdge := by
  by_cases hne : bufs = []
  · subst hne
    refine ⟨fun _ n t hc => by simp at hc, fun _ n => ⟨⟨s, []⟩, rfl, ?_, ?_, by simp⟩⟩
    · rw [h.x]
      omega
    · rw [h.y]
      omega
  · simp only [writes_cut h hne]
    exact put_all_confined_iff (init_vga_confined h) bufs.flatten

theorem poweredOn_booted : Booted poweredOn := ⟨rfl, rfl, rfl⟩

theorem init_vga_origin {s : Screen} (h : Booted s) :
    (init_vga ⟨s, []⟩).screen.text_x = 0 ∧ (init_vga ⟨s, []⟩).screen.text_y = 0 := by
  rw [init_vga_screen]
  simp [Vga.init_vga, Vga.text_clear, h.setup]

/-- A letter, and a backspace behind it. -/
theorem vga_confined_iff_letter : ∃ t, writes (cut 2 [[0x41], [0x08]]) ⟨poweredOn, []⟩ = .ok t ∧ t.Confined := by
  refine (vga_confined_iff poweredOn_booted [[0x41], [0x08]]).2 (fun n t hc ht hedge => ?_) 2
  have hn : n = 1 := by
    rcases n with _ | _ | n
    · simp at hc
    · rfl
    · simp at hc
  obtain ⟨hx, hy⟩ := init_vga_origin poweredOn_booted
  have hletter : put_all [0x41] (init_vga ⟨poweredOn, []⟩) = text_putc 0x41 (init_vga ⟨poweredOn, []⟩) >>= .ok := rfl
  rw [hn, writes_cut poweredOn_booted (by simp)] at ht
  have hput := hletter.symm.trans ht
  unfold text_putc text_putc_nested at hput
  dsimp only at hput
  rw [if_neg (by decide), if_neg (by decide), if_neg (by decide), if_neg (by decide),
    if_neg (by rw [hx]; decide)] at hput
  cases hput
  rcases hedge with h0 | ⟨h80, -⟩
  · simp [move, hx, add32] at h0
  · simp [move, hx, add32] at h80

/-- A backspace on the empty screen: the column wraps, and a byte is stored in front of video memory. -/
theorem vga_backspace_escapes : ∃ t, writes [[0x08]] ⟨poweredOn, []⟩ = .ok t ∧ t.screen.text_x = 2 ^ 32 - 1 ∧
    VIDEO_BASE - 1 ∈ t.stores := by
  obtain ⟨hx, hy⟩ := init_vga_origin poweredOn_booted
  have hwrites := @writes_cut poweredOn poweredOn_booted [[0x08]] (by simp) 1
  rw [show cut 1 [[0x08]] = [[(0x08 : UInt8)]] by rfl,
    show [[(0x08 : UInt8)]].flatten.take 1 = [0x08] by rfl] at hwrites
  refine ⟨_, hwrites.trans rfl, ?_, ?_⟩
  · simp only [move, hx]
    decide
  · simp only [move, Traced.store, hx, hy]
    refine List.mem_append_right _ ?_
    decide

end Traced

end Ulmix.Vga
