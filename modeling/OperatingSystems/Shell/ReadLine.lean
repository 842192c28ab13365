import Mathlib.Algebra.Group.Nat.Defs
import Mathlib.Data.List.TakeWhile
import OperatingSystems.Library.CString

namespace OperatingSystems.Shell
open CString

def carriageReturn : UInt8 := 13

abbrev chunkSize : Nat := 1024

-- `int` addition of two numbers that are not negative, undefined when it overflows
def intAdd (a b : Nat) : Option Nat := if a + b < 2 ^ 31 then some (a + b) else none

-- the locals of `read_line` and what is left of `stdin`
structure Reading where
  line : Option Buffer
  lineLength : Nat
  chunk : Buffer
  stdin : List UInt8

def cutTerminator (chunk : Buffer) (chunkLength : Nat) : Option Buffer :=
  if 1 < chunkLength ∧ chunk[chunkLength - 2]? = some carriageReturn then
    store chunk (chunkLength - 2) 0
  else store chunk (chunkLength - 1) 0

-- the loop of `read_line`; `none` is an undefined access, an overflow or a lack of fuel
def readLoop (garbage : Nat → UInt8) : Nat → Reading → Option (Option Buffer × List UInt8)
  | 0, _ => none
  | fuel + 1, s =>
    match fgets s.chunk chunkSize s.stdin with
    | none => some (s.line, s.stdin)
    | some (chunk, stdin) => do
      let chunkLength ← strlen chunk
      let last ← if chunkLength = 0 then none else chunk[chunkLength - 1]?
      let chunk ← if last = lineFeed then cutTerminator chunk chunkLength else some chunk
      let size ← intAdd s.lineLength chunkSize
      let line ← store (realloc garbage s.line size) s.lineLength 0
      let line ← strcat line chunk
      if last = lineFeed then some (some line, stdin)
      else readLoop garbage fuel ⟨some line, size, chunk, stdin⟩

def readLine (garbage : Nat → UInt8) (fuel : Nat) (chunk : Buffer) (stdin : List UInt8) :
    Option (Option Buffer × List UInt8) :=
  readLoop garbage fuel ⟨none, 0, chunk, stdin⟩

def trimReturn (text : List UInt8) : List UInt8 :=
  if text.getLast? = some carriageReturn then text.dropLast else text

def nextLine (stdin : List UInt8) : Option (List UInt8) × List UInt8 :=
  match stdin.dropWhile (· ≠ lineFeed) with
  | [] => (if stdin = [] then none else some stdin, [])
  | _ :: rest => (some (trimReturn (stdin.takeWhile (· ≠ lineFeed))), rest)

def Returns (garbage : Nat → UInt8) (fuel : Nat) (chunk : Buffer) (stdin : List UInt8) : Prop :=
  ∃ line, readLine garbage fuel chunk stdin = some (line, (nextLine stdin).2) ∧
    match (nextLine stdin).1 with
    | none => line = none
    | some text => ∃ buf, line = some buf ∧ Spells buf text

structure Holding (s : Reading) (k : Nat) (text : List UInt8) : Prop where
  chunk : s.chunk.length = chunkSize
  lineLength : s.lineLength = chunkSize * k
  length : text.length ≤ (chunkSize - 1) * k
  bound : chunkSize * k < 2 ^ 31
  clean : 0 ∉ text
  first : k = 0 → s.line = none
  later : k ≠ 0 → ∃ buf, s.line = some buf ∧ buf.length = chunkSize * k ∧ Spells buf text

section
variable {garbage : Nat → UInt8} {s : Reading} {k fuel : Nat} {text piece rest : List UInt8}

theorem start_holding {chunk : Buffer} (h : chunk.length = chunkSize) (stdin : List UInt8) :
    Holding ⟨none, 0, chunk, stdin⟩ 0 [] :=
  ⟨h, rfl, Nat.le_refl _, by decide, by simp, fun _ => rfl, fun h => absurd rfl h⟩

theorem append_chunk (garbage : Nat → UInt8) (h : Holding s k text) {chunk : Buffer}
    (hpiece : Spells chunk piece) (hlen : piece.length < chunkSize) :
    ∃ line₀ line, store (realloc garbage s.line (chunkSize * (k + 1))) s.lineLength 0 = some line₀ ∧
      strcat line₀ chunk = some line ∧ line.length = chunkSize * (k + 1) ∧
      Spells line (text ++ piece) := by
  have hbig : ∃ line₀, store (realloc garbage s.line (chunkSize * (k + 1))) s.lineLength 0 =
      some line₀ ∧ line₀.length = chunkSize * (k + 1) ∧ Spells line₀ text := by
    rw [h.lineLength]
    by_cases hk : k = 0
    · subst hk
      have hlt : (s.line.getD []).length < chunkSize * (0 + 1) := by simp [h.first rfl]
      obtain ⟨b, more, hgrow⟩ := realloc_grow garbage s.line hlt
      have hlen := realloc_length garbage s.line (Nat.le_of_lt hlt)
      have hnil : text = [] := List.eq_nil_of_length_eq_zero (Nat.le_zero.mp h.length)
      rw [hgrow] at hlen ⊢
      rw [hnil, ← hlen, h.first rfl]
      exact store_first
    · obtain ⟨buf, hbuf, hsize, hspells⟩ := h.later hk
      have hlt : (s.line.getD []).length < chunkSize * (k + 1) := by
        rw [hbuf, Option.getD_some, hsize]
        exact Nat.mul_lt_mul_of_pos_left (Nat.lt_succ_self k) (by decide)
      obtain ⟨b, more, hgrow⟩ := realloc_grow garbage s.line hlt
      have hlen := realloc_length garbage s.line (Nat.le_of_lt hlt)
      rw [hgrow] at hlen ⊢
      rw [← hlen, hbuf, Option.getD_some, ← hsize]
      exact store_behind hspells b more
  obtain ⟨line₀, hstore, hlen₀, hspells⟩ := hbig
  have htext := h.length
  obtain ⟨line, hcat, hline, hspells'⟩ := strcat_spells hspells hpiece (by
    rw [hlen₀]
    simp only [chunkSize] at hlen htext ⊢
    omega)
  exact ⟨line₀, line, hstore, hcat, hline.trans hlen₀, hspells'⟩

theorem open_chunk (garbage : Nat → UInt8) (fuel : Nat) (h : Holding s k text)
    (hstdin : s.stdin = piece ++ rest) (hne : piece ≠ [])
    (hclean : 0 ∉ piece) (hopen : lineFeed ∉ piece)
    (hlen : piece.length = chunkSize - 1 ∨ piece.length ≤ chunkSize - 1 ∧ rest = []) :
    (chunkSize * (k + 1) < 2 ^ 31 → ∃ s', readLoop garbage (fuel + 1) s = readLoop garbage fuel s' ∧
      Holding s' (k + 1) (text ++ piece) ∧ s'.stdin = rest) ∧
    (¬ chunkSize * (k + 1) < 2 ^ 31 → readLoop garbage (fuel + 1) s = none) := by
  have hle : piece.length ≤ chunkSize - 1 := by omega
  have hlt : piece.length < chunkSize := Nat.lt_of_le_of_lt hle (by decide)
  obtain ⟨chunk, hgets, hsize, hspells⟩ := fgets_reads hne hclean
    (lineBytes_open (n := chunkSize - 1) hopen hlen) (hlt.trans_eq h.chunk.symm)
  obtain ⟨line₀, line, hstore, hcat, hline, hspells'⟩ :=
    append_chunk garbage h hspells hlt
  have hlast : chunk[piece.length - 1]? = piece.getLast? := by
    obtain ⟨-, r, rfl⟩ := hspells
    rw [List.getElem?_append_left (by have := List.length_pos_of_ne_nil hne; omega),
      List.getLast?_eq_getElem?]
  obtain ⟨c, hc⟩ : ∃ c, piece.getLast? = some c := ⟨_, List.getLast?_eq_some_getLast hne⟩
  have hfeed : c ≠ lineFeed := fun e => hopen (e ▸ List.mem_of_getLast? hc)
  have hsum : s.lineLength + chunkSize = chunkSize * (k + 1) := by rw [h.lineLength, Nat.mul_succ]
  have hpos : piece.length ≠ 0 := fun e => hne (List.eq_nil_of_length_eq_zero e)
  rw [readLoop, hstdin, hgets]
  simp only [strlen_spells hspells, Option.bind_eq_bind, Option.bind_some, if_neg hpos, hlast, hc,
    if_neg hfeed, intAdd, hsum]
  refine ⟨fun hbound => ⟨⟨some line, chunkSize * (k + 1), chunk, rest⟩, ?_, ?_, rfl⟩,
    fun hbound => by rw [if_neg hbound, Option.bind_none]⟩
  · simp only [if_pos hbound, Option.bind_some, hstore, hcat]
  · refine ⟨hsize.trans h.chunk, rfl, ?_, hbound, by simpa using ⟨h.clean, hclean⟩,
      fun h0 => absurd h0 (Nat.succ_ne_zero k), fun _ => ⟨line, rfl, hline, hspells'⟩⟩
    rw [List.length_append, Nat.mul_succ]
    exact Nat.add_le_add h.length hle

theorem cutTerminator_spells {chunk : Buffer} (h : Spells chunk (piece ++ [lineFeed])) :
    ∃ chunk', cutTerminator chunk (piece.length + 1) = some chunk' ∧
      Spells chunk' (trimReturn piece) := by
  have hlast : (1 < piece.length + 1 ∧ chunk[piece.length + 1 - 2]? = some carriageReturn) ↔
      piece.getLast? = some carriageReturn := by
    obtain ⟨-, r, rfl⟩ := h
    rw [List.getLast?_eq_getElem?]
    rcases Nat.eq_zero_or_pos piece.length with h0 | hpos
    · simp [List.eq_nil_of_length_eq_zero h0]
    · rw [List.append_assoc, List.getElem?_append_left (by omega)]
      exact ⟨fun h => h.2, fun h => ⟨by omega, h⟩⟩
  unfold cutTerminator trimReturn
  by_cases hr : piece.getLast? = some carriageReturn
  · rw [if_pos (hlast.mpr hr), if_pos hr]
    obtain ⟨chunk', hstore, -, hspells⟩ := store_zero h (i := piece.length - 1) (by simp; omega)
    refine ⟨chunk', hstore, ?_⟩
    rwa [List.take_append_of_le_length (Nat.sub_le _ _), ← List.dropLast_eq_take] at hspells
  · rw [if_neg (fun h => hr (hlast.mp h)), if_neg hr]
    obtain ⟨chunk', hstore, -, hspells⟩ := store_zero h (i := piece.length) (by simp)
    exact ⟨chunk', hstore, by rwa [List.take_left] at hspells⟩

theorem trimReturn_length (piece : List UInt8) : (trimReturn piece).length ≤ piece.length := by
  unfold trimReturn
  split
  · rw [List.length_dropLast]
    exact Nat.sub_le _ _
  · exact Nat.le_refl _

theorem closed_chunk (h : Holding s k text) (hstdin : s.stdin = piece ++ lineFeed :: rest)
    (hclean : 0 ∉ piece) (hopen : lineFeed ∉ piece) (hlen : piece.length < chunkSize - 1) :
    (chunkSize * (k + 1) < 2 ^ 31 → ∃ buf, readLoop garbage (fuel + 1) s = some (some buf, rest) ∧
      Spells buf (text ++ trimReturn piece)) ∧
    (¬ chunkSize * (k + 1) < 2 ^ 31 → readLoop garbage (fuel + 1) s = none) := by
  have hlt : (piece ++ [lineFeed]).length < chunkSize := by
    rw [List.length_append, List.length_singleton]
    omega
  have hbytes : lineBytes (chunkSize - 1) (piece ++ [lineFeed] ++ rest) = piece ++ [lineFeed] := by
    rw [List.append_assoc]
    exact lineBytes_closed hopen hlen
  obtain ⟨chunk, hgets, hsize, hspells⟩ := fgets_reads (s := piece ++ [lineFeed])
    (by simp) (by simpa [lineFeed] using hclean) hbytes (hlt.trans_eq h.chunk.symm)
  obtain ⟨chunk', hcut, hspells'⟩ := cutTerminator_spells hspells
  obtain ⟨line₀, line, hstore, hcat, -, hline⟩ := append_chunk garbage h hspells'
    (Nat.lt_of_le_of_lt (trimReturn_length piece) (by omega))
  have hlast : chunk[piece.length + 1 - 1]? = some lineFeed := by
    obtain ⟨-, r, rfl⟩ := hspells
    simp
  have hsum : s.lineLength + chunkSize = chunkSize * (k + 1) := by rw [h.lineLength, Nat.mul_succ]
  rw [List.append_assoc, List.singleton_append, ← hstdin] at hgets
  rw [readLoop, hgets]
  simp only [strlen_spells hspells, Option.bind_eq_bind, Option.bind_some, List.length_append,
    List.length_singleton, if_neg (Nat.succ_ne_zero piece.length), hlast, if_pos, hcut, intAdd, hsum]
  refine ⟨fun hbound => ⟨line, ?_, hline⟩, fun hbound => by rw [if_neg hbound, Option.bind_none]⟩
  simp only [if_pos hbound, Option.bind_some, hstore, hcat]

def chunks (stdin : List UInt8) : Nat :=
  let text := stdin.takeWhile (· ≠ lineFeed)
  if lineFeed ∈ stdin then text.length / (chunkSize - 1) + 1
  else (text.length + (chunkSize - 2)) / (chunkSize - 1)

-- the loop keeps the carriage return when the line feed comes as a chunk of its own
def keptEnd (text : List UInt8) : List UInt8 :=
  if text.length % (chunkSize - 1) = 0 then text else trimReturn text

theorem trimReturn_append (l : List UInt8) (hne : piece ≠ []) :
    trimReturn (l ++ piece) = l ++ trimReturn piece := by
  unfold trimReturn
  rw [List.getLast?_append_of_ne_nil l hne]
  split
  · rw [List.dropLast_append_of_ne_nil hne]
  · rfl

theorem keptEnd_short (hlen : piece.length < chunkSize - 1) : keptEnd piece = trimReturn piece := by
  unfold keptEnd
  rw [Nat.mod_eq_of_lt hlen]
  split
  · rename_i h0
    rw [List.eq_nil_of_length_eq_zero h0]
    rfl
  · rfl

theorem keptEnd_append {l : List UInt8} (hl : l.length = chunkSize - 1) (piece : List UInt8) :
    keptEnd (l ++ piece) = l ++ keptEnd piece := by
  unfold keptEnd
  rw [List.length_append, hl, Nat.add_mod_left]
  split
  · rfl
  · rename_i hmod
    have hne : piece ≠ [] := by
      rintro rfl
      exact hmod (Nat.zero_mod _)
    exact trimReturn_append l hne

theorem closed_line (garbage : Nat → UInt8) (h : Holding s k text) {line : List UInt8}
    (hstdin : s.stdin = line ++ lineFeed :: rest) (hclean : 0 ∉ line) (hopen : lineFeed ∉ line)
    (hfuel : line.length < fuel) :
    (chunkSize * (k + line.length / (chunkSize - 1) + 1) < 2 ^ 31 →
      ∃ buf, readLoop garbage fuel s = some (some buf, rest) ∧ Spells buf (text ++ keptEnd line)) ∧
    (¬ chunkSize * (k + line.length / (chunkSize - 1) + 1) < 2 ^ 31 →
      readLoop garbage fuel s = none) := by
  induction fuel generalizing line s k text with
  | zero => exact absurd hfuel (Nat.not_lt_zero _)
  | succ fuel ih =>
    by_cases hshort : line.length < chunkSize - 1
    · rw [Nat.div_eq_of_lt hshort, keptEnd_short hshort]
      exact closed_chunk h hstdin hclean hopen hshort
    · obtain ⟨p, q, rfl, hp⟩ : ∃ p q, line = p ++ q ∧ p.length = chunkSize - 1 :=
        ⟨_, _, (List.take_append_drop (chunkSize - 1) line).symm, List.length_take_of_le (by omega)⟩
      rw [List.mem_append, not_or] at hclean hopen
      have hq : q.length < fuel := by
        rw [List.length_append, hp] at hfuel
        simp only [chunkSize] at hfuel
        omega
      have hdiv : (p ++ q).length / (chunkSize - 1) = q.length / (chunkSize - 1) + 1 := by
        rw [List.length_append, hp, Nat.add_comm, Nat.add_div_right _ (by decide)]
      obtain ⟨hgo, hstop⟩ := open_chunk garbage fuel h (hstdin.trans (List.append_assoc _ _ _))
        (List.ne_nil_of_length_pos (by rw [hp]; decide)) hclean.1 hopen.1 (.inl hp)
      rw [hdiv, keptEnd_append hp]
      by_cases hbound : chunkSize * (k + 1) < 2 ^ 31
      · obtain ⟨s', hloop, hholding, hstdin'⟩ := hgo hbound
        have hrest := ih hholding hstdin' hclean.2 hopen.2 hq
        rw [hloop, ← List.append_assoc]
        have hk : k + (q.length / (chunkSize - 1) + 1) = k + 1 + q.length / (chunkSize - 1) := by
          omega
        rw [hk]
        exact hrest
      · refine ⟨fun hall => absurd (Nat.lt_of_le_of_lt (Nat.mul_le_mul_left _ ?_) hall) hbound,
          fun _ => hstop hbound⟩
        exact Nat.succ_le_succ (Nat.le_add_right _ _)

theorem open_line (garbage : Nat → UInt8) (h : Holding s k text) {line : List UInt8}
    (hstdin : s.stdin = line)
    (hclean : 0 ∉ line) (hopen : lineFeed ∉ line) (hfuel : line.length < fuel) :
    (chunkSize * (k + (line.length + (chunkSize - 2)) / (chunkSize - 1)) < 2 ^ 31 →
      ∃ out, readLoop garbage fuel s = some (out, []) ∧
        (k = 0 → line = [] → out = none) ∧
        (k ≠ 0 ∨ line ≠ [] → ∃ buf, out = some buf ∧ Spells buf (text ++ line))) ∧
    (¬ chunkSize * (k + (line.length + (chunkSize - 2)) / (chunkSize - 1)) < 2 ^ 31 →
      readLoop garbage fuel s = none) := by
  induction fuel generalizing line s k text with
  | zero => exact absurd hfuel (Nat.not_lt_zero _)
  | succ fuel ih =>
    by_cases hnil : line = []
    · subst hnil
      have hbound : chunkSize * (k + (([] : List UInt8).length + (chunkSize - 2)) / (chunkSize - 1)) <
          2 ^ 31 := h.bound
      refine ⟨fun _ => ⟨s.line, by rw [readLoop, hstdin]; rfl, fun hk _ => h.first hk, fun hk => ?_⟩,
        fun hn => absurd hbound hn⟩
      obtain ⟨buf, hbuf, -, hspells⟩ := h.later (hk.resolve_right fun hne => hne rfl)
      exact ⟨buf, hbuf, by rwa [List.append_nil]⟩
    · obtain ⟨p, q, rfl, hp, hlen⟩ : ∃ p q, line = p ++ q ∧ p ≠ [] ∧
          (p.length = chunkSize - 1 ∨ p.length ≤ chunkSize - 1 ∧ q = []) := by
        refine ⟨line.take (chunkSize - 1), line.drop (chunkSize - 1),
          (List.take_append_drop (chunkSize - 1) line).symm, ?_, ?_⟩
        · simpa using hnil
        · rw [List.length_take, List.drop_eq_nil_iff]
          omega
      rw [List.mem_append, not_or] at hclean hopen
      have hpos := List.length_pos_of_ne_nil hp
      have hq : q.length < fuel := by
        rw [List.length_append] at hfuel
        omega
      have hdiv : ((p ++ q).length + (chunkSize - 2)) / (chunkSize - 1) =
          (q.length + (chunkSize - 2)) / (chunkSize - 1) + 1 := by
        rw [List.length_append]
        rcases hlen with hp | ⟨hp, rfl⟩
        · simp only [chunkSize] at hp ⊢
          omega
        · simp only [chunkSize, List.length_nil] at hp ⊢
          omega
      obtain ⟨hgo, hstop⟩ := open_chunk garbage fuel h hstdin hp hclean.1 hopen.1 hlen
      rw [hdiv]
      by_cases hbound : chunkSize * (k + 1) < 2 ^ 31
      · obtain ⟨s', hloop, hholding, hstdin'⟩ := hgo hbound
        obtain ⟨hread, hover⟩ := ih hholding hstdin' hclean.2 hopen.2 hq
        rw [hloop]
        have hk : k + ((q.length + (chunkSize - 2)) / (chunkSize - 1) + 1) =
            k + 1 + (q.length + (chunkSize - 2)) / (chunkSize - 1) := by omega
        rw [hk]
        refine ⟨fun hall => ?_, hover⟩
        obtain ⟨out, hout, -, hsome⟩ := hread hall
        obtain ⟨buf, rfl, hspells⟩ := hsome (.inl (Nat.succ_ne_zero k))
        exact ⟨some buf, hout, fun _ he => absurd he hnil,
          fun _ => ⟨buf, rfl, by rwa [← List.append_assoc]⟩⟩
      · refine ⟨fun hall => absurd (Nat.lt_of_le_of_lt (Nat.mul_le_mul_left _ ?_) hall) hbound,
          fun _ => hstop hbound⟩
        exact Nat.succ_le_succ (Nat.le_add_right _ _)

theorem keptEnd_iff (line : List UInt8) : keptEnd line = trimReturn line ↔
    ¬ (line.getLast? = some carriageReturn ∧ line.length % (chunkSize - 1) = 0) := by
  unfold keptEnd trimReturn
  by_cases hr : line.getLast? = some carriageReturn
  · have hne : line ≠ line.dropLast := by
      intro he
      have hlen := congrArg List.length he
      have hpos : 0 < line.length := by
        rcases line with - | ⟨c, line⟩
        · cases hr
        · exact Nat.succ_pos _
      rw [List.length_dropLast] at hlen
      omega
    simp [hr, hne]
  · simp [hr]

theorem nextLine_closed (rest : List UInt8) {line : List UInt8} (hopen : lineFeed ∉ line) :
    (line ++ lineFeed :: rest).takeWhile (· ≠ lineFeed) = line ∧
    nextLine (line ++ lineFeed :: rest) = (some (trimReturn line), rest) := by
  have hall : ∀ c ∈ line, decide (c ≠ lineFeed) = true := by
    intro c hc
    simpa using fun e : c = lineFeed => hopen (e ▸ hc)
  have htake : (line ++ lineFeed :: rest).takeWhile (· ≠ lineFeed) = line := by
    rw [List.takeWhile_append_of_pos hall]
    simp
  refine ⟨htake, ?_⟩
  rw [nextLine, htake, List.dropWhile_append_of_pos hall]
  simp

theorem nextLine_open {line : List UInt8} (hopen : lineFeed ∉ line) :
    line.takeWhile (· ≠ lineFeed) = line ∧
    nextLine line = (if line = [] then none else some line, []) := by
  have hall : ∀ c ∈ line, decide (c ≠ lineFeed) = true := by
    intro c hc
    simpa using fun e : c = lineFeed => hopen (e ▸ hc)
  have hdrop : line.dropWhile (· ≠ lineFeed) = [] := List.dropWhile_eq_nil_iff.mpr hall
  refine ⟨List.takeWhile_eq_self_iff.mpr hall, ?_⟩
  rw [nextLine, hdrop]

theorem readLine_iff {chunk : Buffer} {stdin : List UInt8} (hchunk : chunk.length = chunkSize)
    (hclean : 0 ∉ stdin) (hfuel : stdin.length < fuel) :
    Returns garbage fuel chunk stdin ↔ chunkSize * chunks stdin < 2 ^ 31 ∧
      ¬ (lineFeed ∈ stdin ∧
        (stdin.takeWhile (· ≠ lineFeed)).getLast? = some carriageReturn ∧
        (stdin.takeWhile (· ≠ lineFeed)).length % (chunkSize - 1) = 0) := by
  have hstart := start_holding hchunk stdin
  unfold Returns readLine chunks
  by_cases hfeed : lineFeed ∈ stdin
  · obtain ⟨line, rest, rfl, hopen⟩ := List.eq_append_cons_of_mem hfeed
    obtain ⟨htake, hnext⟩ := nextLine_closed rest hopen
    have hline : 0 ∉ line := fun hm => hclean (List.mem_append_left _ hm)
    have hshort : line.length < fuel := by
      rw [List.length_append] at hfuel
      omega
    obtain ⟨hread, hover⟩ := closed_line garbage hstart rfl hline hopen hshort
    rw [Nat.zero_add, List.nil_append] at hread
    rw [Nat.zero_add] at hover
    rw [hnext, htake, if_pos hfeed]
    simp only [hfeed, true_and]
    rw [← keptEnd_iff]
    constructor
    · rintro ⟨_, hloop, buf, rfl, hspells⟩
      by_cases hbound : chunkSize * (line.length / (chunkSize - 1) + 1) < 2 ^ 31
      · obtain ⟨buf', hloop', hspells'⟩ := hread hbound
        rw [hloop] at hloop'
        cases hloop'
        exact ⟨hbound, spells_unique hspells' hspells⟩
      · rw [hover hbound] at hloop
        cases hloop
    · rintro ⟨hbound, hkept⟩
      obtain ⟨buf, hloop, hspells⟩ := hread hbound
      exact ⟨some buf, hloop, buf, rfl, hkept ▸ hspells⟩
  · obtain ⟨htake, hnext⟩ := nextLine_open hfeed
    obtain ⟨hread, hover⟩ := open_line garbage hstart rfl hclean hfeed hfuel
    rw [hnext, htake, if_neg hfeed]
    simp only [hfeed, false_and, not_false_eq_true, and_true, Nat.zero_add] at hread hover ⊢
    constructor
    · rintro ⟨line, hloop, -⟩
      by_contra hbound
      rw [hover hbound] at hloop
      cases hloop
    · intro hbound
      obtain ⟨out, hloop, hnone, hsome⟩ := hread hbound
      refine ⟨out, hloop, ?_⟩
      by_cases hnil : stdin = []
      · rw [if_pos hnil]
        exact hnone trivial hnil
      · rw [if_neg hnil]
        exact hsome (.inr hnil)

theorem readLine_returns_windows :
    Returns (fun _ => 7) 6 (List.replicate chunkSize 0) [108, 115, 13, 10, 97] :=
  (readLine_iff (by simp) (by decide) (by decide)).mpr ⟨by decide, by decide⟩

-- the carriage return is the last byte of the first chunk, and the line feed is the second chunk
theorem split_terminator {line : List UInt8} (hlen : line.length = chunkSize - 2)
    (hclean : 0 ∉ line) (hopen : lineFeed ∉ line) {chunk : Buffer} (hchunk : chunk.length = chunkSize)
    (hfuel : chunkSize ≤ fuel) :
    (∃ buf, readLine garbage fuel chunk (line ++ [carriageReturn, lineFeed]) = some (some buf, []) ∧
      Spells buf (line ++ [carriageReturn])) ∧
    ¬ Returns garbage fuel chunk (line ++ [carriageReturn, lineFeed]) := by
  have hsplit : line ++ [carriageReturn, lineFeed] = line ++ [carriageReturn] ++ lineFeed :: [] := by
    rw [List.append_assoc]
    rfl
  have hopen' : lineFeed ∉ line ++ [carriageReturn] := by
    simpa [lineFeed, carriageReturn] using hopen
  have hclean' : 0 ∉ line ++ [carriageReturn] := by simpa [carriageReturn] using hclean
  have hlen' : (line ++ [carriageReturn]).length = chunkSize - 1 := by
    rw [List.length_append, hlen]
    rfl
  have hend : keptEnd (line ++ [carriageReturn]) = line ++ [carriageReturn] := by
    rw [keptEnd, hlen', if_pos (Nat.mod_self _)]
  have hbound : chunkSize * (0 + (line ++ [carriageReturn]).length / (chunkSize - 1) + 1) <
      2 ^ 31 := by
    rw [hlen']
    decide
  have hfuel' : (line ++ [carriageReturn]).length < fuel := by
    rw [hlen']
    exact hfuel
  obtain ⟨buf, hloop, hspells⟩ :=
    (closed_line garbage (start_holding hchunk _) hsplit hclean' hopen' hfuel').1 hbound
  rw [List.nil_append, hend] at hspells
  have hnext : nextLine (line ++ [carriageReturn, lineFeed]) = (some line, []) := by
    rw [hsplit, (nextLine_closed _ hopen').2]
    simp [trimReturn]
  refine ⟨⟨buf, hloop, hspells⟩, ?_⟩
  rintro ⟨out, hreturned, hsome⟩
  rw [hnext] at hreturned hsome
  obtain ⟨buf', rfl, hspells'⟩ := hsome
  obtain rfl : buf = buf' :=
    Option.some.inj (congrArg Prod.fst (Option.some.inj (hloop.symm.trans hreturned)))
  have hsame := congrArg List.length (spells_unique hspells hspells')
  rw [List.length_append, List.length_singleton] at hsame
  omega

theorem readLine_keeps_return :
    (∃ buf, readLine (fun _ => 0) 1024 (List.replicate 1024 0)
      (List.replicate 1022 97 ++ [carriageReturn, lineFeed]) = some (some buf, []) ∧
      Spells buf (List.replicate 1022 97 ++ [carriageReturn])) ∧
    ¬ Returns (fun _ => 0) 1024 (List.replicate 1024 0)
      (List.replicate 1022 97 ++ [carriageReturn, lineFeed]) := by
  have hmem (b : UInt8) (hb : b ≠ 97) : b ∉ List.replicate 1022 97 :=
    fun hm => hb (List.eq_of_mem_replicate hm)
  exact split_terminator List.length_replicate (hmem 0 (by decide)) (hmem lineFeed (by decide))
    List.length_replicate (Nat.le_refl _)

end

end OperatingSystems.Shell
