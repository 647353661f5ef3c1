import Ulmix.Libc.Strings
/-!
# Formatted output (`kernel/kprintf.c`)

A format is a string in an object that ends with its zero; reading behind it is a
fault, and so is storing outside one of the two local arrays. An argument is one word
for `int`, `long` and pointers alike, so `FMT_LONG` chooses between two equal ways
to fetch it. An index is an `int` there, but addresses wrap where it does.

`Splits` is the grammar: a byte other than `%` stands for itself, and `%` with its
flags takes the next byte as the directive, a run of digits being as long as it can
be. The scan of `do_kprintf` follows this split (`do_kprintf_run`), unless a number
does not fit where it is put: `buf` holds seven digits of a padding, and `fmt_buf`
a number padded to 127.
-/
open Ulmix.Lib
open Ulmix.Stdlib (load store strlen int32 int32_range char chars)

namespace Ulmix.Libc

/-! ## The functions -/

def FMT_LONG : Nat := 1
def PTR_PADDING : Int := 8

/-- The local arrays of `get_flags` and `do_kprintf`, what was put out, and how many
arguments were fetched. -/
structure Frame where
  buf : List UInt8
  fmt_buf : List UInt8
  out : List UInt8
  ap : Nat
  deriving DecidableEq, Repr

/-- What a call is given: the object of the format, the argument words, and the string at each address. -/
structure Call where
  fmt : List UInt8
  args : Nat → UInt32
  strings : Nat → List UInt8

def onBuf {α : Type} (x : Exec (List UInt8) α) : Exec Frame α := Exec.zoom Frame.buf (fun b k => { k with buf := b }) x

def onFmtBuf {α : Type} (x : Exec (List UInt8) α) : Exec Frame α :=
  Exec.zoom Frame.fmt_buf (fun b k => { k with fmt_buf := b }) x

/-- The format is only read. -/
def onFmt {α : Type} (fmt : List UInt8) (x : Exec (List UInt8) α) : Exec Frame α :=
  Exec.zoom (fun _ => fmt) (fun _ k => k) x

def kputc (c : UInt8) : Exec Frame Unit := modify fun k => { k with out := k.out ++ [c] }

def kputs (s : List UInt8) : Exec Frame Unit := modify fun k => { k with out := k.out ++ s }

/-- The string in `fmt_buf`. -/
def fmt_string : Exec Frame (List UInt8) := do
  let n ← onFmtBuf (strlen 0)
  return (← get).fmt_buf.take n

/-- `c >= '0' && c <= '9'` -/
def Digit (c : UInt8) : Prop := 0x30 ≤ c ∧ c ≤ 0x39

instance (c : UInt8) : Decidable (Digit c) := by unfold Digit; infer_instance

/-- `while (fmt_str[i] >= '0' && fmt_str[i] <= '9')`: `i` and `buf_ptr` then. -/
def copy_digits (fmt : List UInt8) : Nat → Nat → Nat → Exec Frame (Nat × Nat)
  | 0, _, _ => Exec.fault .diverges
  | fuel + 1, i, buf_ptr => do
    let c ← onFmt fmt (load i)
    if Digit c then
      onBuf (store buf_ptr c)
      copy_digits fmt fuel (i + 1) (buf_ptr + 1)
    else pure (i, buf_ptr)

/-- The loop of `get_flags`: `i`, `fmt_flags` and `padding` then. -/
def get_flags_loop (fmt : List UInt8) : Nat → Nat → Nat → Int → Exec Frame (Nat × Nat × Int)
  | 0, _, _, _ => Exec.fault .diverges
  | fuel + 1, i, fmt_flags, padding => do
    let i := i + 1
    let c ← onFmt fmt (load i)
    if c = 0x30 then
      let (i, buf_ptr) ← copy_digits fmt (fmt.length + 1) i 0
      onBuf (store buf_ptr 0)
      let padding ← onBuf atoi
      get_flags_loop fmt fuel (i - 1) fmt_flags padding
    else if c = 0x6c then get_flags_loop fmt fuel i (fmt_flags ||| FMT_LONG) padding
    else pure (i, fmt_flags, padding)

def get_flags (fmt : List UInt8) (i fmt_flags : Nat) (padding : Int) : Exec Frame (Nat × Nat × Int) :=
  get_flags_loop fmt (fmt.length + 1) i fmt_flags padding

/-- `scale`: the number and the unit. -/
def scale (sz : Nat) : Nat × UInt8 :=
  if sz < 1024 * 10 then (sz, 0x42)
  else if sz < 1024 * 1024 * 10 then (sz / 1024, 0x4b)
  else if sz < 2 ^ 32 - 1 then (sz / (1024 * 1024), 0x4d)
  else (sz / (1024 * 1024 * 1024), 0x47)

def va_arg (call : Call) : Exec Frame Nat := do
  let k ← get
  set { k with ap := k.ap + 1 }
  return (call.args k.ap).toNat

/-- `fmt_long`, fetched as a `long` or as an `int`. -/
def va_long (call : Call) (fmt_flags : Nat) : Exec Frame Nat :=
  if fmt_flags &&& FMT_LONG ≠ 0 then va_arg call else va_arg call

/-- `case 'x'` -/
def case_x (call : Call) (fmt_flags : Nat) (padding : Int) : Exec Frame Unit := do
  let fmt_long ← va_long call fmt_flags
  onFmtBuf (xtoa fmt_long padding)
  kputs (← fmt_string)

/-- The `switch` of `do_kprintf`. -/
def directive (call : Call) (fmt_char : UInt8) (fmt_flags : Nat) (padding : Int) : Exec Frame Unit := do
  if fmt_char = 0x25 then kputc 0x25
  else if fmt_char = 0x64 then
    let fmt_long ← va_long call fmt_flags
    onFmtBuf (itoa (int32 fmt_long) padding)
    kputs (← fmt_string)
  else if fmt_char = 0x75 then
    let fmt_long ← va_long call fmt_flags
    onFmtBuf (utoa fmt_long padding)
    kputs (← fmt_string)
  else if fmt_char = 0x73 then
    let ptr ← va_arg call
    if ptr ≠ 0 then kputs (call.strings ptr)
  else if fmt_char = 0x63 then kputc (char (← va_arg call))
  else if fmt_char = 0x70 then
    kputs (chars "0x".toList)
    -- falls through to `case 'x'`
    case_x call (fmt_flags ||| FMT_LONG) PTR_PADDING
  else if fmt_char = 0x78 then case_x call fmt_flags padding
  else if fmt_char = 0x53 then
    let fmt_long ← va_long call fmt_flags
    let (fmt_long, scale_c) := scale fmt_long
    onFmtBuf (utoa fmt_long padding)
    kputs (← fmt_string)
    kputc scale_c
  else pure ()

/-- The loop of `do_kprintf`; each round moves `i` on. -/
def do_kprintf_loop (call : Call) (fmt_len : Nat) : Nat → Nat → Exec Frame Unit
  | 0, _ => Exec.fault .diverges
  | fuel + 1, i => do
    if i < fmt_len then
      let c ← onFmt call.fmt (load i)
      if c = 0x25 then
        let (i, fmt_flags, padding) ← get_flags call.fmt i 0 1
        let fmt_char ← onFmt call.fmt (load i)
        directive call fmt_char fmt_flags padding
        do_kprintf_loop call fmt_len fuel (i + 1)
      else
        kputc c
        do_kprintf_loop call fmt_len fuel (i + 1)
    else pure ()

def do_kprintf (call : Call) : Exec Frame Unit := do
  let fmt_len ← onFmt call.fmt (strlen 0)
  do_kprintf_loop call fmt_len (fmt_len + 1) 0

/-! ## The grammar -/

/-- What may stand between `%` and the directive: `0` with the digits behind it, all of
them, or `l`. -/
inductive Flag where
  | padding (run : List Nat)
  | long

/-- `s` begins with the flags `fs`, and `rest` is what is behind the last of them. -/
inductive Flags : List UInt8 → List Flag → List UInt8 → Prop
  | none {rest : List UInt8} : (∀ c ∈ rest.head?, c ≠ 0x30 ∧ c ≠ 0x6c) → Flags rest [] rest
  | padding {ds : List Nat} {s rest : List UInt8} {fs : List Flag} : (∀ d ∈ ds, d < 10) → (∀ c ∈ s.head?, ¬ Digit c) →
      Flags s fs rest → Flags ((0 :: ds).map digitByte ++ s) (.padding (0 :: ds) :: fs) rest
  | long {s rest : List UInt8} {fs : List Flag} : Flags s fs rest → Flags (0x6c :: s) (.long :: fs) rest

/-- A part of a format: a byte other than `%`, a directive with its flags, or flags at the end. -/
inductive Item where
  | literal (c : UInt8)
  | directive (fs : List Flag) (c : UInt8)
  | cut (fs : List Flag)

/-- The format `s` is made of these parts. -/
inductive Splits : List UInt8 → List Item → Prop
  | nil : Splits [] []
  | literal {c : UInt8} {s : List UInt8} {items : List Item} : c ≠ 0x25 → Splits s items →
      Splits (c :: s) (.literal c :: items)
  | directive {s rest : List UInt8} {fs : List Flag} {c : UInt8} {items : List Item} : Flags s fs (c :: rest) →
      Splits rest items → Splits (0x25 :: s) (.directive fs c :: items)
  | cut {s : List UInt8} {fs : List Flag} : Flags s fs [] → Splits (0x25 :: s) [.cut fs]

/-- The last padding given, or `p`. -/
def padding (p : Int) (fs : List Flag) : Int :=
  fs.foldl (fun p f => match f with
    | .padding run => (Nat.ofDigits 10 run.reverse : Nat)
    | .long => p) p

/-- What a directive prints for an argument. -/
def conversion (call : Call) (c : UInt8) (pad : Int) (arg : Nat) : List UInt8 :=
  if c = 0x25 then [0x25]
  else if c = 0x64 then text 10 pad (int32 arg).natAbs
  else if c = 0x75 then text 10 pad arg
  else if c = 0x73 then (if arg ≠ 0 then call.strings arg else [])
  else if c = 0x63 then [char arg]
  else if c = 0x70 then chars "0x".toList ++ text 16 8 arg
  else if c = 0x78 then text 16 (min pad 8) arg
  else if c = 0x53 then text 10 pad (scale arg).1 ++ [(scale arg).2]
  else []

/-- The directives with an argument: `d u s c p x S`. -/
def TakesArgument (c : UInt8) : Prop := c ∈ [0x64, 0x75, 0x73, 0x63, 0x70, 0x78, 0x53]

instance (c : UInt8) : Decidable (TakesArgument c) := by unfold TakesArgument; infer_instance

namespace Item

def consumes : Item → Nat
  | directive _ c => if TakesArgument c then 1 else 0
  | _ => 0

/-- What a part prints where `n` arguments are gone. -/
def output (call : Call) (n : Nat) : Item → List UInt8
  | literal c => [c]
  | directive fs c => conversion call c (Libc.padding 1 fs) (call.args n).toNat
  | cut _ => []

end Item

def consumed (items : List Item) : Nat := (items.map Item.consumes).sum

theorem consumed_cons (item : Item) (items : List Item) :
    consumed (item :: items) = item.consumes + consumed items := by
  simp [consumed]

/-- What the parts print one after the other. -/
def outputs (call : Call) : Nat → List Item → List UInt8
  | _, [] => []
  | n, item :: items => item.output call n ++ outputs call (n + item.consumes) items

/-! ## Every format has one split -/

theorem digit_byte : ∀ d < 10, Digit (digitByte d) := by decide

theorem digit_value {c : UInt8} (h : Digit c) : digitValue c < 10 ∧ digitByte (digitValue c) = c := by
  revert c
  decide +kernel

/-- Cut the digits off the front. -/
theorem exists_digits (s : List UInt8) : ∃ (ds : List Nat) (rest : List UInt8), s = ds.map digitByte ++ rest ∧
    (∀ d ∈ ds, d < 10) ∧ ∀ c ∈ rest.head?, ¬ Digit c := by
  induction s with
  | nil => exact ⟨[], [], rfl, by simp, by simp⟩
  | cons c s ih =>
    by_cases hc : Digit c
    · obtain ⟨ds, rest, rfl, hds, hrest⟩ := ih
      refine ⟨digitValue c :: ds, rest, ?_, ?_, hrest⟩
      · rw [List.map_cons, (digit_value hc).2, List.cons_append]
      · intro d hd
        rcases List.mem_cons.1 hd with rfl | hd
        · exact (digit_value hc).1
        · exact hds d hd
    · exact ⟨[], c :: s, rfl, by simp, by simpa using hc⟩

theorem exists_flags (s : List UInt8) : ∃ fs rest, Flags s fs rest ∧ rest.length ≤ s.length := by
  induction hn : s.length using Nat.strong_induction_on generalizing s with
  | _ n ih =>
    subst hn
    cases s with
    | nil => exact ⟨[], [], .none (by simp), le_rfl⟩
    | cons c s =>
      by_cases h0 : c = 0x30
      · -- the digits behind the zero belong to it
        subst h0
        obtain ⟨ds, s, rfl, hds, hs⟩ := exists_digits s
        obtain ⟨fs, rest, hfs, hlen⟩ := ih s.length (by simp only [List.length_cons, List.length_append]; omega) s rfl
        refine ⟨_, rest, .padding hds hs hfs, ?_⟩
        simp only [List.length_cons, List.length_append]
        omega
      · by_cases hl : c = 0x6c
        · subst hl
          obtain ⟨fs, rest, hfs, hlen⟩ := ih s.length (by simp) s rfl
          refine ⟨_, rest, .long hfs, ?_⟩
          rw [List.length_cons]
          omega
        · exact ⟨[], c :: s, .none (by simp [h0, hl]), le_rfl⟩

theorem exists_splits (s : List UInt8) : ∃ items, Splits s items := by
  induction hn : s.length using Nat.strong_induction_on generalizing s with
  | _ n ih =>
    cases s with
    | nil => exact ⟨[], .nil⟩
    | cons c s =>
      by_cases hc : c = 0x25
      · subst hc
        obtain ⟨fs, rest, hfs, hlen⟩ := exists_flags s
        cases rest with
        | nil => exact ⟨_, .cut hfs⟩
        | cons d rest =>
          obtain ⟨items, hitems⟩ := ih rest.length (by simp only [List.length_cons] at hn hlen; omega) rest rfl
          exact ⟨_, .directive hfs hitems⟩
      · obtain ⟨items, hitems⟩ := ih s.length (by rw [← hn]; simp) s rfl
        exact ⟨_, .literal hc hitems⟩

/-- Digits end where something else begins. -/
theorem digits_unique : ∀ {ds es : List Nat} {s t : List UInt8}, (∀ d ∈ ds, d < 10) → (∀ d ∈ es, d < 10) →
    (∀ c ∈ s.head?, ¬ Digit c) → (∀ c ∈ t.head?, ¬ Digit c) → ds.map digitByte ++ s = es.map digitByte ++ t →
    ds = es ∧ s = t := by
  intro ds
  induction ds with
  | nil =>
    intro es s t _ hes hs _ heq
    cases es with
    | nil => exact ⟨rfl, heq⟩
    | cons e es =>
      rw [List.map_nil, List.nil_append] at heq
      exact absurd (digit_byte e (hes e List.mem_cons_self)) (hs _ (by simp [heq]))
  | cons d ds ih =>
    intro es s t hds hes hs ht heq
    cases es with
    | nil =>
      rw [List.map_nil, List.nil_append] at heq
      exact absurd (digit_byte d (hds d List.mem_cons_self)) (ht _ (by simp [← heq]))
    | cons e es =>
      simp only [List.map_cons, List.cons_append, List.cons.injEq] at heq
      obtain ⟨rfl, rfl⟩ := ih (fun d hd => hds d (List.mem_cons_of_mem _ hd))
          (fun d hd => hes d (List.mem_cons_of_mem _ hd))
        hs ht heq.2
      have hd := digitValue_digitByte d (by have := hds d List.mem_cons_self; omega)
      have he := digitValue_digitByte e (by have := hes e List.mem_cons_self; omega)
      rw [← hd, heq.1, he]
      exact ⟨rfl, rfl⟩

theorem Flags.unique {s rest rest' : List UInt8} {fs fs' : List Flag} (h : Flags s fs rest) (h' : Flags s fs' rest') :
    fs = fs' ∧ rest = rest' := by
  have hbyte : digitByte 0 = 0x30 := by decide
  induction h generalizing fs' rest' with
  | none hhead =>
    cases h' with
    | none => exact ⟨rfl, rfl⟩
    | padding => exact absurd hbyte (hhead _ (by simp)).1
    | long => exact absurd rfl (hhead _ (by simp)).2
  | @padding ds s rest fs hds hs _ ih =>
    generalize ht : (0 :: ds).map digitByte ++ s = t at h'
    cases h' with
    | none hhead => exact absurd hbyte (hhead _ (by simp [← ht])).1
    | @padding es s' _ _ hes hs' hfs =>
      simp only [List.map_cons, List.cons_append, List.cons.injEq, true_and] at ht
      obtain ⟨rfl, rfl⟩ := digits_unique hds hes hs hs' ht
      obtain ⟨rfl, rfl⟩ := ih hfs
      exact ⟨rfl, rfl⟩
    | long =>
      simp [hbyte] at ht
  | @long s rest fs _ ih =>
    generalize ht : (0x6c : UInt8) :: s = t at h'
    cases h' with
    | none hhead => exact absurd rfl (hhead _ (by simp [← ht])).2
    | padding =>
      simp [hbyte] at ht
    | long hfs =>
      obtain ⟨rfl, rfl⟩ := ih (by cases ht; exact hfs)
      exact ⟨rfl, rfl⟩

/-- The grammar leaves no choice. -/
theorem Splits.unique {s : List UInt8} {items items' : List Item} (h : Splits s items) (h' : Splits s items') :
    items = items' := by
  induction h generalizing items' with
  | nil =>
    cases h'
    rfl
  | literal hc _ ih =>
    cases h' with
    | literal _ hitems => rw [ih hitems]
    | directive => exact absurd rfl hc
    | cut => exact absurd rfl hc
  | directive hfs _ ih =>
    cases h' with
    | literal hc => exact absurd rfl hc
    | directive hfs' hitems =>
      obtain ⟨rfl, hrest⟩ := hfs.unique hfs'
      cases hrest
      rw [ih hitems]
    | cut hfs' => cases (hfs.unique hfs').2
  | cut hfs =>
    cases h' with
    | literal hc => exact absurd rfl hc
    | directive hfs' => cases (hfs.unique hfs').2
    | cut hfs' => rw [(hfs.unique hfs').1]

/-! ## Reading the flags -/

theorem onBuf_bind {α β : Type} (x : Exec (List UInt8) α) (f : α → Exec (List UInt8) β) :
    onBuf (x >>= f) = onBuf x >>= fun a => onBuf (f a) :=
  Exec.zoom_bind (by intros; rfl) (by intros; rfl) x f

/-- The byte of the format at `i`, by what follows from there on. -/
theorem fmt_load {fmt r : List UInt8} {i : Nat} {c : UInt8} (h : fmt.drop i = c :: r) :
    onFmt fmt (load i) = pure c := by
  funext k
  have hat : fmt[i]? = some c := by
    have := congrArg List.head? h
    rwa [List.head?_drop] at this
  have hload : load i fmt = .ok (c, fmt) := by
    unfold load
    rw [Exec.bind_of_ok (Exec.get_apply _), hat]
    rfl
  exact Exec.zoom_of_ok hload

theorem drop_next {fmt r : List UInt8} {i : Nat} {c : UInt8} (h : fmt.drop i = c :: r) : fmt.drop (i + 1) = r := by
  rw [← List.drop_drop, h]
  rfl

/-- Copying a run of digits is storing it. -/
theorem copy_digits_eq {fmt r : List UInt8} {c : UInt8} (hc : ¬ Digit c) : ∀ (ds : List Nat) (fuel i buf_ptr : Nat),
    (∀ d ∈ ds, d < 10) → fmt.drop i = ds.map digitByte ++ c :: r → ds.length < fuel →
    copy_digits fmt fuel i buf_ptr = (do
      onBuf (stores buf_ptr (ds.map digitByte))
      pure (i + ds.length, buf_ptr + ds.length)) := by
  intro ds
  induction ds with
  | nil =>
    intro fuel i buf_ptr _ hfmt hfuel
    obtain ⟨fuel, rfl⟩ : ∃ n, fuel = n + 1 := ⟨fuel - 1, by simp only [List.length_nil] at hfuel; omega⟩
    unfold copy_digits
    rw [fmt_load hfmt, pure_bind, if_neg hc]
    rfl
  | cons d ds ih =>
    intro fuel i buf_ptr hds hfmt hfuel
    obtain ⟨fuel, rfl⟩ : ∃ n, fuel = n + 1 := ⟨fuel - 1, by omega⟩
    rw [List.length_cons] at hfuel
    rw [List.map_cons, List.cons_append] at hfmt
    have hnext := ih fuel (i + 1) (buf_ptr + 1) (fun e he => hds e (List.mem_cons_of_mem _ he)) (drop_next hfmt)
        (by omega)
    unfold copy_digits
    rw [fmt_load hfmt, pure_bind, if_pos (digit_byte d (hds d List.mem_cons_self)), hnext, List.map_cons, stores,
      onBuf_bind]
    simp [Nat.add_assoc, Nat.add_comm 1]

/-- A run of digits is read as a number, if `buf` has room for it. -/
theorem read_padding_run {run : List Nat} (hrun : ∀ d ∈ run, d < 10) {k : Frame} (hbuf : k.buf.length = 8) :
    onBuf (do stores 0 (run.map digitByte); store run.length 0; atoi) k =
      if run.length ≤ 7 then
        .ok ((Nat.ofDigits 10 run.reverse : Nat),
          { k with buf := run.map digitByte ++ 0 :: k.buf.drop (run.length + 1) })
      else .error .outOfBounds := by
  have hstores : (do stores 0 (run.map digitByte); store run.length 0) = stores 0 (run.map digitByte ++ [0]) := by
    rw [stores_append]
    simp [stores]
  have hprod := stores_produces (run.map digitByte) k.buf
  rw [← hstores, List.length_map, hbuf] at hprod
  have hprog : (do stores 0 (run.map digitByte); store run.length 0; atoi) =
      ((do stores 0 (run.map digitByte); store run.length 0) >>= fun _ => atoi) := by
    simp
  rw [hprog]
  by_cases hlen : run.length ≤ 7
  · have hsmall : Nat.ofDigits 10 run.reverse < 10 ^ 7 :=
      (Nat.ofDigits_lt_base_pow_length (by decide) fun d hd => hrun d (List.mem_reverse.1 hd)).trans_le
        (Nat.pow_le_pow_right (by decide) (by rwa [List.length_reverse]))
    have hatoi := atoi_digits hrun (by omega) (k.buf.drop (run.length + 1))
    have hint : int32 (Nat.ofDigits 10 run.reverse : Nat) = (Nat.ofDigits 10 run.reverse : Nat) := by
      unfold int32
      exact Int.bmod_eq_of_le (by omega) (by omega)
    rw [if_pos (by omega)] at hprod
    rw [if_pos hlen, ← hint]
    exact Exec.zoom_of_ok ((Exec.bind_of_ok hprod).trans hatoi)
  · rw [if_neg (by omega)] at hprod
    rw [if_neg hlen]
    exact Exec.zoom_of_error (Exec.bind_of_error hprod)

/-- `buf` has room for the run and its zero. -/
def Flag.Fits : Flag → Prop
  | .padding run => run.length ≤ 7
  | .long => True

/-- `get_flags` stops behind the flags, or at a run too long for `buf`. -/
theorem get_flags_loop_run {fmt s rest : List UInt8} {fs : List Flag} (hf : Flags s fs rest) :
    ∀ (fuel i fmt_flags : Nat) (p : Int) (k : Frame), fmt.drop (i + 1) = s ++ [0] → s.length < fuel → k.buf.length = 8 →
      ((∀ f ∈ fs, f.Fits) → ∃ i' flags b, get_flags_loop fmt fuel i fmt_flags p k =
        .ok ((i', flags, padding p fs), { k with buf := b }) ∧ b.length = 8 ∧ i < i' ∧ fmt.drop i' = rest ++ [0]) ∧
      ((¬ ∀ f ∈ fs, f.Fits) → get_flags_loop fmt fuel i fmt_flags p k = .error .outOfBounds) := by
  induction hf with
  | @none rest hhead =>
    intro fuel i fmt_flags p k hfmt hfuel hbuf
    obtain ⟨fuel, rfl⟩ : ∃ n, fuel = n + 1 := ⟨fuel - 1, by omega⟩
    refine ⟨fun _ => ⟨i + 1, fmt_flags, k.buf, ?_, hbuf, by omega, hfmt⟩, fun h => absurd (by simp) h⟩
    obtain ⟨c, r, hcr, hc0, hcl⟩ : ∃ c r, rest ++ [0] = c :: r ∧ c ≠ 0x30 ∧ c ≠ 0x6c := by
      cases rest with
      | nil => exact ⟨0, [], rfl, by decide, by decide⟩
      | cons c r => exact ⟨c, r ++ [0], rfl, (hhead c rfl).1, (hhead c rfl).2⟩
    unfold get_flags_loop
    dsimp only
    rw [fmt_load (hfmt.trans hcr), pure_bind, if_neg hc0, if_neg hcl]
    rfl
  | @padding ds s rest fs hds hs _ ih =>
    intro fuel i fmt_flags p k hfmt hfuel hbuf
    obtain ⟨fuel, rfl⟩ : ∃ n, fuel = n + 1 := ⟨fuel - 1, by omega⟩
    have hbyte : digitByte 0 = 0x30 := by decide
    have hrun : ∀ d ∈ 0 :: ds, d < 10 := by
      intro d hd
      rcases List.mem_cons.1 hd with rfl | hd
      · decide
      · exact hds d hd
    obtain ⟨c, r, hcr, hc⟩ : ∃ c r, s ++ [0] = c :: r ∧ ¬ Digit c := by
      cases s with
      | nil => exact ⟨0, [], rfl, by decide⟩
      | cons c r => exact ⟨c, r ++ [0], rfl, hs c rfl⟩
    rw [List.append_assoc, hcr] at hfmt
    have hlen := congrArg List.length hfmt
    simp only [List.length_drop, List.length_append, List.length_map, List.length_cons] at hlen hfuel
    have hcopy := copy_digits_eq hc (0 :: ds) (fmt.length + 1) (i + 1) 0 hrun hfmt
        (by simp only [List.length_cons]; omega)
    have hafter : fmt.drop (i + (ds.length + 1) + 1) = s ++ [0] := by
      rw [hcr, show i + (ds.length + 1) + 1 = i + 1 + (ds.length + 1) by omega, ← List.drop_drop, hfmt]
      simp
    -- the digits, their zero and the number they make: three calls on `buf`
    have hstep : get_flags_loop fmt (fuel + 1) i fmt_flags p =
        onBuf (do stores 0 ((0 :: ds).map digitByte); store (0 :: ds).length 0; atoi) >>= fun padding =>
          get_flags_loop fmt fuel (i + (ds.length + 1)) fmt_flags padding := by
      rw [get_flags_loop]
      dsimp only
      rw [List.map_cons, List.cons_append] at hfmt
      rw [fmt_load hfmt, pure_bind, if_pos hbyte, hcopy, onBuf_bind, onBuf_bind]
      simp only [bind_assoc, pure_bind, List.length_cons, Nat.zero_add,
        show i + 1 + (ds.length + 1) - 1 = i + (ds.length + 1) by omega]
    have hread := read_padding_run hrun hbuf
    rw [hstep]
    by_cases hfit : (0 :: ds).length ≤ 7
    · rw [if_pos hfit] at hread
      have hb8 : ((0 :: ds).map digitByte ++ 0 :: k.buf.drop ((0 :: ds).length + 1)).length = 8 := by
        simp only [List.length_append, List.length_map, List.length_cons, List.length_drop] at hfit ⊢
        omega
      have hfits : (∀ f ∈ Flag.padding (0 :: ds) :: fs, f.Fits) ↔ ∀ f ∈ fs, f.Fits := by
        rw [List.forall_mem_cons]
        exact and_iff_right hfit
      obtain ⟨hgood, hbad⟩ := ih fuel (i + (ds.length + 1)) fmt_flags (Nat.ofDigits 10 (0 :: ds).reverse : Nat)
        { k with buf := (0 :: ds).map digitByte ++ 0 :: k.buf.drop ((0 :: ds).length + 1) } hafter (by omega) hb8
      rw [Exec.bind_of_ok hread, hfits]
      refine ⟨fun h => ?_, hbad⟩
      obtain ⟨i', flags, b, hrun', hb, hi, hrest⟩ := hgood h
      exact ⟨i', flags, b, hrun', hb, by omega, hrest⟩
    · rw [if_neg hfit] at hread
      rw [Exec.bind_of_error hread]
      exact ⟨fun h => absurd (h _ List.mem_cons_self) hfit, fun _ => rfl⟩
  | @long s rest fs _ ih =>
    intro fuel i fmt_flags p k hfmt hfuel hbuf
    obtain ⟨fuel, rfl⟩ : ∃ n, fuel = n + 1 := ⟨fuel - 1, by omega⟩
    rw [List.cons_append] at hfmt
    rw [List.length_cons] at hfuel
    obtain ⟨hgood, hbad⟩ := ih fuel (i + 1) (fmt_flags ||| FMT_LONG) p k (drop_next hfmt) (by omega) hbuf
    have hstep : get_flags_loop fmt (fuel + 1) i fmt_flags p =
        get_flags_loop fmt fuel (i + 1) (fmt_flags ||| FMT_LONG) p := by
      rw [get_flags_loop]
      dsimp only
      rw [fmt_load hfmt, pure_bind, if_neg (by decide), if_pos rfl]
    have hfits : (∀ f ∈ Flag.long :: fs, f.Fits) ↔ ∀ f ∈ fs, f.Fits := by simp [Flag.Fits]
    rw [hstep, hfits]
    refine ⟨fun h => ?_, hbad⟩
    obtain ⟨i', flags, b, hrun, hb, hi, hrest⟩ := hgood h
    exact ⟨i', flags, b, hrun, hb, by omega, hrest⟩

/-! ## One directive -/

/-- The arrays have the sizes they are declared with. -/
structure Frame.Sized (k : Frame) : Prop where
  buf : k.buf.length = 8
  fmt_buf : k.fmt_buf.length = 128

/-- From `k` on `w` was put out, and `n` arguments fetched. -/
structure Printed (k : Frame) (w : List UInt8) (n : Nat) (t : Frame) : Prop where
  sized : t.Sized
  out : t.out = k.out ++ w
  ap : t.ap = k.ap + n

theorem Printed.trans {k t u : Frame} {v w : List UInt8} {m n : Nat} (h : Printed k v m t) (h' : Printed t w n u) :
    Printed k (v ++ w) (m + n) u where
  sized := h'.sized
  out := by rw [h'.out, h.out, List.append_assoc]
  ap := by rw [h'.ap, h.ap, Nat.add_assoc]

/-- `x` puts out `w` and fetches `n` arguments, or leaves `fmt_buf` if `fits` is false. -/
def Prints (x : Exec Frame Unit) (k : Frame) (fits : Prop) (w : List UInt8) (n : Nat) : Prop :=
  (fits → ∃ t, x k = .ok ((), t) ∧ Printed k w n t) ∧ (¬ fits → x k = .error .outOfBounds)

theorem kputc_prints {k : Frame} (hk : k.Sized) (c : UInt8) : Prints (kputc c) k True [c] 0 :=
  ⟨fun _ => ⟨_, rfl, ⟨hk.buf, hk.fmt_buf⟩, rfl, rfl⟩, fun h => absurd trivial h⟩

theorem kputs_prints {k : Frame} (hk : k.Sized) (s : List UInt8) : Prints (kputs s) k True s 0 :=
  ⟨fun _ => ⟨_, rfl, ⟨hk.buf, hk.fmt_buf⟩, rfl, rfl⟩, fun h => absurd trivial h⟩

theorem va_long_run (call : Call) (fmt_flags : Nat) (k : Frame) :
    va_long call fmt_flags k = .ok ((call.args k.ap).toNat, { k with ap := k.ap + 1 }) := by
  unfold va_long
  split <;> rfl

/-- A number converted in `fmt_buf` is put out, if it fits. -/
theorem number_prints {k : Frame} (hk : k.Sized) {x : Exec (List UInt8) Unit} {w : List UInt8} (hx : Produces x w)
    (h0 : 0 ∉ w) : Prints (do onFmtBuf x; kputs (← fmt_string)) k (w.length ≤ 127) w 0 := by
  have hrun := hx k.fmt_buf
  rw [hk.fmt_buf] at hrun
  constructor
  · intro hfit
    rw [if_pos (by omega)] at hrun
    have hstr := strlen_run h0 (k.fmt_buf.drop (w.length + 1))
    let t : Frame := { k with fmt_buf := w ++ 0 :: k.fmt_buf.drop (w.length + 1) }
    have hlen : onFmtBuf (strlen 0) t = .ok (w.length, t) := by
      unfold onFmtBuf
      exact Exec.zoom_of_ok hstr
    have hstring : fmt_string t = .ok (w, t) := by
      unfold fmt_string
      rw [Exec.bind_of_ok hlen, Exec.bind_of_ok (Exec.get_apply _), Exec.pure_apply]
      simp [t]
    have hx' : onFmtBuf x k = .ok ((), t) := Exec.zoom_of_ok hrun
    refine ⟨_, (Exec.bind_of_ok hx').trans ((Exec.bind_of_ok hstring).trans rfl), ⟨hk.buf, ?_⟩, rfl, rfl⟩
    have hlen := hk.fmt_buf
    simp only [t, List.length_append, List.length_cons, List.length_drop]
    omega
  · intro hfit
    rw [if_neg (by omega)] at hrun
    exact Exec.bind_of_error (Exec.zoom_of_error hrun)

namespace Prints

variable {k : Frame} {x y : Exec Frame Unit} {p q : Prop} {v w : List UInt8} {m n : Nat}

theorem bind (hx : Prints x k p w n) (hy : ∀ t, Printed k w n t → Prints y t q v m) :
    Prints (x >>= fun _ => y) k (p ∧ q) (w ++ v) (n + m) := by
  by_cases hp : p
  · obtain ⟨t, ht, hkt⟩ := hx.1 hp
    rw [and_iff_right hp]
    refine ⟨fun hq => ?_, fun hq => ?_⟩
    · obtain ⟨u, hu, htu⟩ := (hy t hkt).1 hq
      exact ⟨u, (Exec.bind_of_ok ht).trans hu, hkt.trans htu⟩
    · exact (Exec.bind_of_ok ht).trans ((hy t hkt).2 hq)
  · exact ⟨fun h => absurd h.1 hp, fun _ => Exec.bind_of_error (hx.2 hp)⟩

theorem iff (hx : Prints x k p w n) (h : p ↔ q) : Prints x k q w n :=
  ⟨fun hq => hx.1 (h.2 hq), fun hq => hx.2 (mt h.1 hq)⟩

/-- What is put out for an argument once it is fetched. -/
theorem fetched {a : Nat} {fetch : Exec Frame Nat} {f : Nat → Exec Frame Unit}
    (hfetch : fetch k = .ok (a, { k with ap := k.ap + 1 })) (hf : Prints (f a) { k with ap := k.ap + 1 } p w 0) :
    Prints (fetch >>= f) k p w 1 := by
  constructor
  · intro hp
    obtain ⟨t, ht, hkt⟩ := hf.1 hp
    exact ⟨t, (Exec.bind_of_ok hfetch).trans ht, hkt.sized, hkt.out, hkt.ap⟩
  · intro hp
    exact (Exec.bind_of_ok hfetch).trans (hf.2 hp)

end Prints

/-- A number of 32 bits fits into `fmt_buf` if its padding does. -/
theorem text_fits {b x : Nat} (hb : 10 ≤ b) (hx : x < 2 ^ 32) (pad : Int) :
    (text b pad x).length ≤ 127 ↔ pad ≤ 127 := by
  have hdigits : (Nat.digits b x).length ≤ 10 := by
    refine (Nat.digits_length_le_iff (by omega) x).2 (hx.trans ?_)
    exact lt_of_lt_of_le (by decide : 2 ^ 32 < 10 ^ 10) (Nat.pow_le_pow_left hb 10)
  rw [text_length]
  omega

/-- The padding goes into `fmt_buf` where the directive is one of `d u S`. -/
def PaddingFits (c : UInt8) (pad : Int) : Prop := c ∈ [0x64, 0x75, 0x53] → pad ≤ 127

theorem case_x_prints {k : Frame} (hk : k.Sized) (call : Call) (fmt_flags : Nat) (pad : Int) :
    Prints (case_x call fmt_flags pad) k True (text 16 (min pad 8) (call.args k.ap).toNat) 1 := by
  have hword : (call.args k.ap).toNat < 2 ^ 32 := (call.args k.ap).toNat_lt
  have hk' : Frame.Sized { k with ap := k.ap + 1 } := ⟨hk.buf, hk.fmt_buf⟩
  refine .fetched (va_long_run call fmt_flags k) ?_
  refine (number_prints hk' (xtoa_produces hword pad) (text_no_zero (by decide) (by decide) _ _)).iff ?_
  rw [text_fits (by decide) hword]
  exact iff_true_intro (by omega)

theorem scale_lt {sz : Nat} (h : sz < 2 ^ 32) : (scale sz).1 < 2 ^ 32 := by
  unfold scale
  split
  · exact h
  · split
    · dsimp only
      omega
    · split <;> dsimp only <;> omega

/-- Every directive prints its conversion, if its padding fits. -/
theorem directive_prints {k : Frame} (hk : k.Sized) (call : Call) (c : UInt8) (fmt_flags : Nat) (pad : Int) :
    Prints (directive call c fmt_flags pad) k (PaddingFits c pad) (conversion call c pad (call.args k.ap).toNat)
      (if TakesArgument c then 1 else 0) := by
  have hk' : Frame.Sized { k with ap := k.ap + 1 } := ⟨hk.buf, hk.fmt_buf⟩
  have hword : (call.args k.ap).toNat < 2 ^ 32 := (call.args k.ap).toNat_lt
  have hlong := va_long_run call fmt_flags k
  have harg : va_arg call k = .ok ((call.args k.ap).toNat, { k with ap := k.ap + 1 }) := rfl
  unfold directive conversion
  by_cases h1 : c = 0x25
  · subst h1
    exact (kputc_prints hk 0x25).iff (by simp [PaddingFits])
  by_cases h2 : c = 0x64
  · subst h2
    have hrange := int32_range (call.args k.ap).toNat
    refine .fetched hlong ((number_prints hk' (itoa_produces hrange pad)
      (text_no_zero (by decide) (by decide) _ _)).iff ?_)
    rw [text_fits (by decide) (by omega)]
    simp [PaddingFits]
  by_cases h3 : c = 0x75
  · subst h3
    refine .fetched hlong ((number_prints hk' (utoa_produces hword pad)
      (text_no_zero (by decide) (by decide) _ _)).iff ?_)
    rw [text_fits (by decide) hword]
    simp [PaddingFits]
  by_cases h4 : c = 0x73
  · subst h4
    refine .fetched harg ?_
    by_cases hptr : (call.args k.ap).toNat = 0
    · simp only [hptr, ne_eq, not_true_eq_false, if_false]
      exact ⟨fun _ => ⟨_, rfl, hk', (List.append_nil _).symm, rfl⟩, fun h => absurd (by simp [PaddingFits]) h⟩
    · simp only [ne_eq, hptr, not_false_eq_true, if_true]
      exact (kputs_prints hk' _).iff (by simp [PaddingFits])
  by_cases h5 : c = 0x63
  · subst h5
    exact .fetched harg ((kputc_prints hk' _).iff (by simp [PaddingFits]))
  by_cases h6 : c = 0x70
  · subst h6
    have hx : ∀ t, Printed k (chars "0x".toList) 0 t → Prints (case_x call (fmt_flags ||| FMT_LONG) PTR_PADDING) t True
        (text 16 8 (call.args k.ap).toNat) 1 := by
      intro t ht
      have hprints := case_x_prints ht.sized call (fmt_flags ||| FMT_LONG) PTR_PADDING
      rwa [ht.ap] at hprints
    exact ((kputs_prints hk (chars "0x".toList)).bind hx).iff (by simp [PaddingFits])
  by_cases h7 : c = 0x78
  · subst h7
    exact (case_x_prints hk call fmt_flags pad).iff (by simp [PaddingFits])
  by_cases h8 : c = 0x53
  · subst h8
    have hlt := scale_lt hword
    have hnumber := (number_prints hk' (utoa_produces hlt pad) (text_no_zero (by decide) (by decide) _ _)).bind
      fun t ht => kputc_prints ht.sized (scale (call.args k.ap).toNat).2
    simp only [bind_assoc] at hnumber
    refine .fetched hlong (hnumber.iff ?_)
    rw [text_fits (by decide) hlt]
    simp [PaddingFits]
  · have hnone : ¬ TakesArgument c := by simp [TakesArgument, h2, h3, h4, h5, h6, h7, h8]
    simp only [h1, h2, h3, h4, h5, h6, h7, h8, hnone, if_false]
    refine ⟨fun _ => ⟨k, rfl, hk, (List.append_nil _).symm, rfl⟩, fun h => absurd ?_ h⟩
    simp [PaddingFits, h2, h3, h8]

/-! ## The scan -/

namespace Item

/-- No run of digits is too long for `buf`. -/
def RunsFit : Item → Prop
  | literal _ => True
  | directive fs _ | cut fs => ∀ f ∈ fs, f.Fits

/-- The number, padded, is not too long for `fmt_buf`. -/
def NumberFits : Item → Prop
  | directive fs c => PaddingFits c (Libc.padding 1 fs)
  | _ => True

def Fits (item : Item) : Prop := item.RunsFit ∧ item.NumberFits

end Item

/-- What goes on behind the flags. -/
theorem get_flags_prints {fmt s rest : List UInt8} {fs : List Flag} {i : Nat} {k : Frame} (hf : Flags s fs rest)
    (hfmt : fmt.drop (i + 1) = s ++ [0]) (hk : k.Sized) {f : Nat × Nat × Int → Exec Frame Unit} {p : Prop}
    {w : List UInt8} {n : Nat}
    (hnext : ∀ i' flags t, Printed k [] 0 t → i < i' → fmt.drop i' = rest ++ [0] →
      Prints (f (i', flags, padding 1 fs)) t p w n) :
    Prints (get_flags fmt i 0 1 >>= f) k ((∀ f ∈ fs, f.Fits) ∧ p) w n := by
  have hlen := congrArg List.length hfmt
  simp only [List.length_drop, List.length_append, List.length_singleton] at hlen
  obtain ⟨hgood, hbad⟩ := get_flags_loop_run hf (fmt.length + 1) i 0 1 k hfmt (by omega) hk.buf
  unfold get_flags
  by_cases hfits : ∀ f ∈ fs, f.Fits
  · obtain ⟨i', flags, b, hrun, hb, hi, hrest⟩ := hgood hfits
    have ht : Printed k [] 0 { k with buf := b } := ⟨⟨hb, hk.fmt_buf⟩, (List.append_nil _).symm, rfl⟩
    rw [and_iff_right hfits]
    refine ⟨fun hp => ?_, fun hp => ?_⟩
    · obtain ⟨u, hu, htu⟩ := (hnext i' flags _ ht hi hrest).1 hp
      refine ⟨u, (Exec.bind_of_ok hrun).trans hu, ?_⟩
      have hku := ht.trans htu
      rwa [List.nil_append, Nat.zero_add] at hku
    · exact (Exec.bind_of_ok hrun).trans ((hnext i' flags _ ht hi hrest).2 hp)
  · exact ⟨fun h => absurd h.1 hfits, fun _ => Exec.bind_of_error (hbad hfits)⟩

/-- The scan goes through the parts of the format one after the other. -/
theorem do_kprintf_loop_prints {call : Call} {fmt_len : Nat} (hlen : call.fmt.length = fmt_len + 1) {s : List UInt8}
    {items : List Item} (hs : Splits s items) : ∀ (fuel i : Nat) (k : Frame), call.fmt.drop i = s ++ [0] →
      s.length < fuel →
      k.Sized → Prints (do_kprintf_loop call fmt_len fuel i) k (∀ item ∈ items, item.Fits) (outputs call k.ap items)
        (consumed items) := by
  have hpos : ∀ {i : Nat} {c : UInt8} {r : List UInt8}, call.fmt.drop i = c :: (r ++ [0]) → i < fmt_len := by
    intro i c r hfmt
    have hcount := congrArg List.length hfmt
    simp only [List.length_drop, List.length_cons, List.length_append, List.length_nil] at hcount
    omega
  -- the round at the end, or behind it
  have hend : ∀ (fuel i : Nat) (k : Frame), fmt_len ≤ i → k.Sized →
      Prints (do_kprintf_loop call fmt_len (fuel + 1) i) k True [] 0 := by
    intro fuel i k hi hk
    unfold do_kprintf_loop
    rw [if_neg (by omega)]
    exact ⟨fun _ => ⟨k, rfl, hk, (List.append_nil _).symm, rfl⟩, fun h => absurd trivial h⟩
  induction hs with
  | nil =>
    intro fuel i k hfmt hfuel hk
    obtain ⟨fuel, rfl⟩ : ∃ n, fuel = n + 1 := ⟨fuel - 1, by simp only [List.length_nil] at hfuel; omega⟩
    have hcount := congrArg List.length hfmt
    simp only [List.length_drop, List.nil_append, List.length_singleton] at hcount
    exact (hend fuel i k (by omega) hk).iff (by simp)
  | @literal c s items hc _ ih =>
    intro fuel i k hfmt hfuel hk
    obtain ⟨fuel, rfl⟩ : ∃ n, fuel = n + 1 := ⟨fuel - 1, by omega⟩
    rw [List.length_cons] at hfuel
    rw [List.cons_append] at hfmt
    unfold do_kprintf_loop
    rw [if_pos (hpos hfmt), fmt_load hfmt, pure_bind, if_neg hc]
    have hrest : ∀ t, Printed k [c] 0 t → Prints (do_kprintf_loop call fmt_len fuel (i + 1)) t
        (∀ item ∈ items, item.Fits)
        (outputs call k.ap items) (consumed items) := by
      intro t ht
      have hprints := ih fuel (i + 1) t (drop_next hfmt) (by omega) ht.sized
      rwa [ht.ap] at hprints
    rw [consumed_cons]
    exact ((kputc_prints hk c).bind hrest).iff (by simp [Item.Fits, Item.RunsFit, Item.NumberFits])
  | @directive s rest fs c items hf _ ih =>
    intro fuel i k hfmt hfuel hk
    obtain ⟨fuel, rfl⟩ : ∃ n, fuel = n + 1 := ⟨fuel - 1, by omega⟩
    rw [List.length_cons] at hfuel
    rw [List.cons_append] at hfmt
    unfold do_kprintf_loop
    rw [if_pos (hpos hfmt), fmt_load hfmt, pure_bind, if_pos rfl, consumed_cons]
    have hlens := congrArg List.length hfmt
    refine (get_flags_prints hf (drop_next hfmt) hk (p := PaddingFits c (padding 1 fs) ∧ ∀ item ∈ items, item.Fits)
      fun i' flags t ht hi hfmt' => ?_).iff ?_
    · rw [List.cons_append] at hfmt'
      have hlens' := congrArg List.length hfmt'
      simp only [List.length_drop, List.length_cons, List.length_append] at hlens hlens'
      have hrest : ∀ u, Printed t (conversion call c (padding 1 fs) (call.args t.ap).toNat)
          (if TakesArgument c then 1 else 0) u →
          Prints (do_kprintf_loop call fmt_len fuel (i' + 1)) u (∀ item ∈ items, item.Fits)
            (outputs call (k.ap + if TakesArgument c then 1 else 0) items) (consumed items) := by
        intro u hu
        have hprints := ih fuel (i' + 1) u (drop_next hfmt') (by omega) hu.sized
        rwa [hu.ap, ht.ap] at hprints
      have hprints := (directive_prints ht.sized call c flags (padding 1 fs)).bind hrest
      rw [ht.ap, Nat.add_zero] at hprints
      dsimp only
      rw [fmt_load hfmt', pure_bind]
      exact hprints
    · rw [List.forall_mem_cons, ← and_assoc]
      rfl
  | @cut s fs hf =>
    intro fuel i k hfmt hfuel hk
    obtain ⟨fuel, rfl⟩ : ∃ n, fuel = n + 1 := ⟨fuel - 1, by omega⟩
    rw [List.length_cons] at hfuel
    rw [List.cons_append] at hfmt
    unfold do_kprintf_loop
    rw [if_pos (hpos hfmt), fmt_load hfmt, pure_bind, if_pos rfl]
    have hlens := congrArg List.length hfmt
    refine (get_flags_prints hf (drop_next hfmt) hk (p := True) fun i' flags t ht hi hfmt' => ?_).iff ?_
    · -- the directive is the zero at the end, and the scan is behind it
      rw [List.nil_append] at hfmt'
      have hlens' := congrArg List.length hfmt'
      simp only [List.length_drop, List.length_cons, List.length_append, List.length_nil] at hlens hlens'
      obtain ⟨fuel, rfl⟩ : ∃ n, fuel = n + 1 := ⟨fuel - 1, by omega⟩
      dsimp only
      rw [fmt_load hfmt', pure_bind]
      exact ((directive_prints ht.sized call 0 flags (padding 1 fs)).bind fun u hu =>
        hend fuel (i' + 1) u (by omega) hu.sized).iff (by simp [PaddingFits])
    · simp [Item.Fits, Item.RunsFit, Item.NumberFits]

section
variable {call : Call} {s : List UInt8} {items : List Item} {k : Frame}

theorem do_kprintf_prints (hfmt : call.fmt = s ++ [0]) (h0 : 0 ∉ s) (hs : Splits s items) (hk : k.Sized) :
    Prints (do_kprintf call) k (∀ item ∈ items, item.Fits) (outputs call k.ap items) (consumed items) := by
  have hstr : onFmt call.fmt (strlen 0) = pure s.length := by
    funext k
    have hlen := strlen_run h0 []
    rw [← hfmt] at hlen
    unfold onFmt
    exact Exec.zoom_of_ok hlen
  unfold do_kprintf
  rw [hstr, pure_bind]
  exact do_kprintf_loop_prints (by rw [hfmt]; simp) hs (s.length + 1) 0 k (by rw [List.drop_zero, hfmt]) (by omega) hk

/-- Nothing is stored outside the local arrays exactly when no run of digits in the format
has more than seven, and no directive of `d u S` a padding above 127. -/
theorem do_kprintf_stores_iff (hfmt : call.fmt = s ++ [0]) (h0 : 0 ∉ s) (hs : Splits s items) (hk : k.Sized) :
    do_kprintf call k ≠ .error .outOfBounds ↔ ∀ item ∈ items, item.RunsFit ∧ item.NumberFits := by
  have hprints := do_kprintf_prints hfmt h0 hs hk
  constructor
  · intro hrun
    by_contra hfits
    exact hrun (hprints.2 hfits)
  · intro hfits
    obtain ⟨t, ht, -⟩ := hprints.1 hfits
    rw [ht]
    simp

/-- Where no run of digits is too long: the scan ends, having printed and fetched what the
parts of the format stand for, exactly when no directive of `d u S` has a padding above 127. -/
theorem do_kprintf_scan_iff (hfmt : call.fmt = s ++ [0]) (h0 : 0 ∉ s) (hs : Splits s items) (hk : k.Sized)
    (hruns : ∀ item ∈ items, item.RunsFit) :
    (∃ t, do_kprintf call k = .ok ((), t) ∧ Printed k (outputs call k.ap items) (consumed items) t) ↔
      ∀ item ∈ items, item.NumberFits := by
  have hprints := do_kprintf_prints hfmt h0 hs hk
  constructor
  · rintro ⟨t, ht, -⟩
    by_contra hnumber
    rw [hprints.2 fun hfits => hnumber fun item hi => (hfits item hi).2] at ht
    cases ht
  · intro hnumber
    exact hprints.1 fun item hi => ⟨hruns item hi, hnumber item hi⟩

end

/-! ## Formats that fit, and formats that do not -/

/-- Argument `n` is `n + 1`. -/
def counting (fmt : String) : Call := ⟨chars fmt.toList ++ [0], fun n => UInt32.ofNat (n + 1), fun _ => []⟩

def emptyFrame : Frame := ⟨List.replicate 8 0, List.replicate 128 0, [], 0⟩

theorem emptyFrame_sized : emptyFrame.Sized := ⟨rfl, rfl⟩

/-- A padded number and a line feed. -/
theorem padded_splits : Splits (chars "%05u\n".toList) [.directive [.padding [0, 5]] 0x75, .literal 0x0a] := by
  have hflags : Flags ((0 :: [5]).map digitByte ++ [0x75, 0x0a]) [.padding [0, 5]] [0x75, 0x0a] :=
    .padding (by decide) (by simp [Digit]) (.none (by simp))
  exact .directive hflags (.literal (by decide) .nil)

theorem do_kprintf_stores_iff_padded : do_kprintf (counting "%05u\n") emptyFrame ≠ .error .outOfBounds :=
  (do_kprintf_stores_iff rfl (by decide) padded_splits emptyFrame_sized).2 (by
    simp [Item.RunsFit, Item.NumberFits, Flag.Fits, PaddingFits, padding, Nat.ofDigits])

theorem do_kprintf_scan_iff_padded : ∃ t, do_kprintf (counting "%05u\n") emptyFrame = .ok ((), t) ∧ t.ap = 1 := by
  obtain ⟨t, ht, hprinted⟩ := (@do_kprintf_scan_iff (counting "%05u\n") _ _ _ rfl
      (by decide) padded_splits emptyFrame_sized
    (by simp [Item.RunsFit, Flag.Fits])).2 (by
      simp [Item.NumberFits, PaddingFits, padding, Nat.ofDigits])
  exact ⟨t, ht, hprinted.ap⟩

/-- Eight digits do not fit into `buf`. -/
theorem do_kprintf_long_run : do_kprintf (counting "%00000001x") emptyFrame = .error .outOfBounds :=
  Exec.error_of_map (by decide +kernel)

/-- A number padded to 128 does not fit into `fmt_buf`. -/
theorem do_kprintf_wide_number : do_kprintf (counting "%0128d") emptyFrame = .error .outOfBounds :=
  Exec.error_of_map (by decide +kernel)

end Ulmix.Libc
