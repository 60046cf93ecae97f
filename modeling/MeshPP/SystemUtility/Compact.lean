import Mathlib.Data.List.Forall2
import MeshPP.SystemUtility.BlockFile

/-! # What `compact` does to the stored bytes

The marked bytes of a file, read in marker order, are its live data (`live`).
Merging markers into chunks keeps the live data, moving the chunks to the left
writes it to the front of the file, and the separately shifted marker entries
cut it into the same pieces as before. The three loops meet in `compact_spec`. -/

namespace MeshPP.SystemUtility
open MeshPP.Lib

/-- Markers from `lo` on, each non-empty and none starting before the last ends. -/
def Spaced : Nat → List Marker → Prop
  | _, [] => True
  | lo, m :: ms => lo ≤ m.start ∧ m.start < m.end_ ∧ Spaced m.end_ ms

def lastEnd : Nat → List Marker → Nat
  | lo, [] => lo
  | _, m :: ms => lastEnd m.end_ ms

/-- The marked size. -/
def total : List Marker → Nat
  | [] => 0
  | m :: ms => m.end_ - m.start + total ms

/-- The unmarked size in front of and between the markers. -/
def gaps : Nat → List Marker → Nat
  | _, [] => 0
  | lo, m :: ms => m.start - lo + gaps m.end_ ms

/-- The marked bytes in marker order. -/
def live (b : Bytes) (ms : List Marker) : Bytes := ms.flatMap fun m => slice b m.start m.end_

@[simp] theorem total_nil : total [] = 0 := rfl

@[simp] theorem total_cons (m : Marker) (ms : List Marker) :
    total (m :: ms) = m.end_ - m.start + total ms := rfl

@[simp] theorem live_cons (b : Bytes) (m : Marker) (ms : List Marker) :
    live b (m :: ms) = slice b m.start m.end_ ++ live b ms := by simp [live]

theorem Spaced.le_lastEnd {lo : Nat} {ms : List Marker} (h : Spaced lo ms) :
    lo ≤ lastEnd lo ms := by
  induction ms generalizing lo with
  | nil => exact Nat.le_refl _
  | cons m ms ih => exact Nat.le_trans (by have := h.1; have := h.2.1; omega) (ih h.2.2)

theorem Spaced.gaps_add_total {lo : Nat} {ms : List Marker} (h : Spaced lo ms) :
    lo + gaps lo ms + total ms = lastEnd lo ms := by
  induction ms generalizing lo with
  | nil => rfl
  | cons m ms ih =>
    have hrest := ih h.2.2
    have := h.1
    have := h.2.1
    simp only [gaps, total_cons, lastEnd]
    omega

theorem Spaced.total_pos {lo : Nat} {ms : List Marker} (h : Spaced lo ms) (hne : ms ≠ []) :
    0 < total ms := by
  cases ms with
  | nil => exact absurd rfl hne
  | cons m ms =>
    have := h.2.1
    simp only [total_cons]
    omega

theorem Spaced.mono {lo lo' : Nat} {ms : List Marker} (h : Spaced lo ms) (hl : lo' ≤ lo) :
    Spaced lo' ms := by
  cases ms with
  | nil => trivial
  | cons m ms => exact ⟨Nat.le_trans hl h.1, h.2⟩

theorem Spaced.append {lo : Nat} {ms ns : List Marker} :
    Spaced lo (ms ++ ns) ↔ Spaced lo ms ∧ Spaced (lastEnd lo ms) ns := by
  induction ms generalizing lo with
  | nil => simp [Spaced, lastEnd]
  | cons m ms ih => simp only [List.cons_append, Spaced, lastEnd, ih, and_assoc]

theorem lastEnd_append (lo : Nat) (ms ns : List Marker) :
    lastEnd lo (ms ++ ns) = lastEnd (lastEnd lo ms) ns := by
  induction ms generalizing lo with
  | nil => rfl
  | cons m ms ih => exact ih _

theorem Spaced.end_le {lo : Nat} {ms : List Marker} (h : Spaced lo ms) {m : Marker}
    (hm : m ∈ ms) : m.end_ ≤ lastEnd lo ms := by
  induction ms generalizing lo with
  | nil => cases hm
  | cons a ms ih =>
    rcases List.mem_cons.mp hm with rfl | hm
    · exact h.2.2.le_lastEnd
    · exact ih h.2.2 hm

theorem Spaced.start_ge {lo : Nat} {ms : List Marker} (h : Spaced lo ms) {m : Marker}
    (hm : m ∈ ms) : lo ≤ m.start ∧ m.start < m.end_ := by
  induction ms generalizing lo with
  | nil => cases hm
  | cons a ms ih =>
    rcases List.mem_cons.mp hm with rfl | hm
    · exact ⟨h.1, h.2.1⟩
    · have := ih h.2.2 hm
      have := h.1
      have := h.2.1
      omega

/-- Dropping markers keeps the rest spaced, inside the same bound. -/
theorem Spaced.sublist {lo : Nat} {ms ns : List Marker} (hs : ns.Sublist ms) (h : Spaced lo ms) :
    Spaced lo ns ∧ lastEnd lo ns ≤ lastEnd lo ms := by
  induction hs generalizing lo with
  | slnil => exact ⟨trivial, Nat.le_refl _⟩
  | @cons ns ms m hs ih =>
    have hlo : lo ≤ m.end_ := by have := h.1; have := h.2.1; omega
    obtain ⟨hsp, hle⟩ := ih (h.2.2.mono hlo)
    refine ⟨hsp, Nat.le_trans hle ?_⟩
    cases ms with
    | nil =>
      have := h.1
      have := h.2.1
      simp only [lastEnd]
      omega
    | cons _ _ => exact Nat.le_refl _
  | @cons_cons ns ms m _ ih =>
    obtain ⟨hsp, hle⟩ := ih h.2.2
    exact ⟨⟨h.1, h.2.1, hsp⟩, hle⟩

theorem length_live {b : Bytes} {lo : Nat} {ms : List Marker} (h : Spaced lo ms)
    (hb : lastEnd lo ms ≤ b.length) : (live b ms).length = total ms := by
  induction ms generalizing lo with
  | nil => rfl
  | cons m ms ih =>
    have he : m.end_ ≤ b.length := Nat.le_trans h.2.2.le_lastEnd hb
    rw [live_cons, List.length_append, total_cons, length_slice he, ih h.2.2 hb]

/-- Two files that agree on every marked piece have the same live data. -/
theorem live_congr {b b' : Bytes} {ms : List Marker}
    (h : ∀ m ∈ ms, slice b' m.start m.end_ = slice b m.start m.end_) : live b' ms = live b ms := by
  induction ms with
  | nil => rfl
  | cons m ms ih =>
    rw [live_cons, live_cons, h m (by simp), ih (fun m hm => h m (by simp [hm]))]

/-! ## Merging into chunks -/

/-- `mergeFrom` with the size limit of a chunk as a parameter. -/
def mergeBelow (limit : Nat) (chunk : Marker) : List Marker → List Marker
  | [] => [chunk]
  | item :: rest =>
    if chunk.end_ = item.start ∧ item.end_ - chunk.start < limit then
      mergeBelow limit { chunk with end_ := item.end_ } rest
    else chunk :: mergeBelow limit item rest

def mergeChunksBelow (limit : Nat) : List Marker → List Marker
  | [] => []
  | item :: rest => mergeBelow limit item rest

theorem mergeBelow_chunkLimit (chunk : Marker) (ms : List Marker) :
    mergeBelow chunkLimit chunk ms = mergeFrom chunk ms := by
  induction ms generalizing chunk with
  | nil => rfl
  | cons item rest ih => simp only [mergeBelow, mergeFrom, ih]

theorem mergeChunksBelow_chunkLimit (ms : List Marker) :
    mergeChunksBelow chunkLimit ms = mergeChunks ms := by
  cases ms with
  | nil => rfl
  | cons item rest => exact mergeBelow_chunkLimit item rest

theorem mergeBelow_spec (limit : Nat) (b : Bytes) {lo : Nat} {chunk : Marker} {ms : List Marker}
    (h : Spaced lo (chunk :: ms)) :
    Spaced lo (mergeBelow limit chunk ms) ∧
      lastEnd lo (mergeBelow limit chunk ms) = lastEnd lo (chunk :: ms) ∧
      total (mergeBelow limit chunk ms) = total (chunk :: ms) ∧
      live b (mergeBelow limit chunk ms) = live b (chunk :: ms) := by
  induction ms generalizing lo chunk with
  | nil => exact ⟨h, rfl, rfl, rfl⟩
  | cons item rest ih =>
    obtain ⟨hlo, hne, hle, hne', hsp⟩ := h
    unfold mergeBelow
    split
    · next hm =>
      have hstart : chunk.end_ = item.start := hm.1
      have hmerged : Spaced lo ({ chunk with end_ := item.end_ } :: rest) :=
        ⟨hlo, by simp only; omega, hsp⟩
      obtain ⟨h1, h2, h3, h4⟩ := ih hmerged
      refine ⟨h1, h2, ?_, ?_⟩
      · rw [h3]
        simp only [total_cons]
        omega
      · rw [h4, live_cons, live_cons, live_cons, ← List.append_assoc, ← hstart,
          slice_append_slice b (Nat.le_of_lt hne) (by omega)]
    · have hrest : Spaced chunk.end_ (item :: rest) := ⟨hle, hne', hsp⟩
      obtain ⟨h1, h2, h3, h4⟩ := ih hrest
      exact ⟨⟨hlo, hne, h1⟩, h2, by rw [total_cons, h3, ← total_cons],
        by rw [live_cons, h4, ← live_cons]⟩

theorem mergeChunksBelow_spec (limit : Nat) (b : Bytes) {lo : Nat} {ms : List Marker}
    (h : Spaced lo ms) :
    Spaced lo (mergeChunksBelow limit ms) ∧ lastEnd lo (mergeChunksBelow limit ms) = lastEnd lo ms ∧
      total (mergeChunksBelow limit ms) = total ms ∧
      live b (mergeChunksBelow limit ms) = live b ms := by
  cases ms with
  | nil => exact ⟨trivial, rfl, rfl, rfl⟩
  | cons m ms => exact mergeBelow_spec limit b h

/-! ## The shifted entries -/

/-- `ms'` cuts `b'` into the pieces into which `ms` cuts `b`, under the same keys. -/
def Moved (b : Bytes) (ms : List Marker) (b' : Bytes) (ms' : List Marker) : Prop :=
  List.Forall₂ (fun m m' => m'.key = m.key ∧ m'.end_ - m'.start = m.end_ - m.start ∧
    slice b' m'.start m'.end_ = slice b m.start m.end_) ms ms'

theorem Moved.of_slices {b b' : Bytes} {ms : List Marker}
    (h : ∀ m ∈ ms, slice b' m.start m.end_ = slice b m.start m.end_) : Moved b ms b' ms :=
  List.forall₂_same.mpr fun m hm => ⟨rfl, rfl, h m hm⟩

theorem shiftMarkers_spaced {lo start : Nat} {ms : List Marker} (h : Spaced lo ms)
    (hs : start ≤ lo) :
    Spaced start (shiftMarkers start ms) ∧
      lastEnd start (shiftMarkers start ms) = start + total ms := by
  induction ms generalizing lo start with
  | nil => exact ⟨trivial, by simp [shiftMarkers, lastEnd]⟩
  | cons m ms ih =>
    obtain ⟨hlo, hne, hsp⟩ := h
    have hend : m.end_ - (m.start - start) ≤ m.end_ := by omega
    obtain ⟨h1, h2⟩ := ih hsp hend
    refine ⟨⟨?_, ?_, h1⟩, ?_⟩
    · simp only; omega
    · simp only; omega
    · simp only [shiftMarkers, lastEnd, total_cons, h2]; omega

theorem gaps_shiftMarkers {lo start : Nat} {ms : List Marker} (h : Spaced lo ms)
    (hs : start ≤ lo) : gaps start (shiftMarkers start ms) = 0 := by
  induction ms generalizing lo start with
  | nil => rfl
  | cons m ms ih =>
    have := h.1
    have := h.2.1
    simp only [shiftMarkers, gaps, ih h.2.2 (show m.end_ - (m.start - start) ≤ m.end_ by omega)]
    omega

/-- A file whose bytes from `start` on are the live data of `b` is cut by the
shifted entries into the old pieces. -/
theorem shiftMarkers_moved {b b' : Bytes} {lo start : Nat} {ms : List Marker}
    (h : Spaced lo ms) (hb : lastEnd lo ms ≤ b.length) (hs : start ≤ lo)
    (hl : slice b' start (start + total ms) = live b ms) :
    Moved b ms b' (shiftMarkers start ms) := by
  induction ms generalizing lo start with
  | nil => exact .nil
  | cons m ms ih =>
    obtain ⟨hlo, hne, hsp⟩ := h
    have he : m.end_ - (m.start - start) = start + (m.end_ - m.start) := by omega
    have hst : m.start - (m.start - start) = start := by omega
    rw [live_cons, total_cons, ← Nat.add_assoc,
      ← slice_append_slice b' (s := start) (e := start + (m.end_ - m.start)) (by omega)
        (by omega)] at hl
    have hend : m.end_ ≤ b.length := Nat.le_trans hsp.le_lastEnd hb
    have hlen : (slice b' start (start + (m.end_ - m.start))).length =
        (slice b m.start m.end_).length := by
      -- the appended parts have the marked lengths, so the first ones do too
      have h1 := congrArg List.length hl
      have h2 : (slice b' (start + (m.end_ - m.start)) (start + (m.end_ - m.start) + total ms)).length
          ≤ total ms := by
        simp only [slice, List.length_take]; omega
      have h3 : (slice b' start (start + (m.end_ - m.start))).length ≤ m.end_ - m.start := by
        simp only [slice, List.length_take]; omega
      simp only [List.length_append, length_slice hend, length_live hsp hb] at h1 ⊢
      omega
    obtain ⟨hl1, hl2⟩ := List.append_inj hl hlen
    refine .cons ⟨rfl, ?_, ?_⟩ ?_
    · simp only; omega
    · simp only [he, hst]; exact hl1
    · simp only [he]
      exact ih hsp hb (by omega) hl2

/-! ## The sums of the first loop -/

theorem gapSums_foldl {lo : Nat} {ms : List Marker} (h : Spaced lo ms) (shiftSum sizeSum start : Nat)
    (hs : start + shiftSum = lo) :
    ms.foldl (fun (x : Nat × Nat × Nat) item =>
        (item.start - x.2.2, x.2.1 + (item.end_ - item.start), item.end_ - (item.start - x.2.2)))
        (shiftSum, sizeSum, start) = (shiftSum + gaps lo ms, sizeSum + total ms, start + total ms) := by
  induction ms generalizing lo shiftSum sizeSum start with
  | nil => simp [gaps]
  | cons m ms ih =>
    obtain ⟨hlo, hne, hsp⟩ := h
    rw [List.foldl_cons, ih hsp (m.start - start) (sizeSum + (m.end_ - m.start))
      (m.end_ - (m.start - start)) (by omega), total_cons, gaps]
    congr 1
    · omega
    · congr 1 <;> omega

theorem gapSums_spec {ms : List Marker} (h : Spaced 0 ms) :
    gapSums ms = (gaps 0 ms, total ms, total ms) := by
  have hsums := gapSums_foldl h 0 0 0 rfl
  simpa only [gapSums, Nat.zero_add] using hsums

/-! ## The calls -/

theorem ends_readRow {function path info : String} {contents : Bytes} {start end_ : Nat} {w : World}
    (h : end_ ≤ contents.length) :
    Ends readFrame (readRow function path info contents start end_) w
      (fun row w' => row = slice contents start end_ ∧ w'.disk = w.disk) := by
  refine ends_readCall.bind fun _ w₁ _ hw₁ => ?_
  refine ends_readCall.bind fun _ w' _ hw => ?_
  rw [if_pos h]
  exact ends_pure ⟨rfl, hw.trans hw₁⟩

theorem ends_openTr {path function : String} {b : Bytes} {w : World}
    (h : (w.disk path).tr = some b) :
    Ends (blockFrame path) (openTr path function) w (fun _ w' => w'.disk path = w.disk path) := by
  refine ends_callId.bind fun _ w' _ hw => ?_
  refine (ends_get (Q := fun a t => a = w' ∧ t = w') ⟨rfl, rfl⟩).bind fun a t _ ht => ?_
  obtain ⟨rfl, rfl⟩ := ht
  have htr : (t.disk path).tr = some b := by rw [hw]; exact h
  simp only [htr]
  exact ends_pure hw

theorem ends_sizeTr {path function : String} {b : Bytes} {w : World}
    (h : (w.disk path).tr = some b) :
    Ends (blockFrame path) (sizeTr path function) w
      (fun n w' => n = b.length ∧ w'.disk path = w.disk path) := by
  refine ends_callId.bind fun _ w' _ hw => ?_
  refine (ends_get (Q := fun a t => a = w' ∧ t = w') ⟨rfl, rfl⟩).bind fun a t _ ht => ?_
  obtain ⟨rfl, rfl⟩ := ht
  have htr : (t.disk path).tr = some b := by rw [hw]; exact h
  rw [htr]
  exact ends_pure ⟨rfl, hw⟩

/-- Only the pending contents of the block change. -/
def Rewrites (path : String) (w w' : World) (b' : Bytes) : Prop :=
  w'.disk path = { w.disk path with tr := some b' }

theorem Rewrites.of_eq {path : String} {w w' : World} {b : Bytes}
    (h : (w.disk path).tr = some b) (hw : w'.disk path = w.disk path) : Rewrites path w w' b := by
  rw [Rewrites, hw, ← h]

theorem Rewrites.tr {path : String} {w w' : World} {b : Bytes} (h : Rewrites path w w' b) :
    (w'.disk path).tr = some b := by rw [h]

theorem Rewrites.trans {path : String} {w w' w'' : World} {b b' : Bytes}
    (h : Rewrites path w w' b) (h' : Rewrites path w' w'' b') : Rewrites path w w'' b' := by
  unfold Rewrites at *; rw [h', h]

/-- One chunk lands at `start`; what lies in front of it and every piece behind
its old place stay. -/
theorem moveChunk_spec {path info : String} {m : Marker} {start : Nat} {w : World} {b : Bytes}
    (hs : start ≤ m.start) (hne : m.start < m.end_) (hend : m.end_ ≤ b.length)
    (htr : (w.disk path).tr = some b) :
    Ends (blockFrame path) (moveChunk path info start m) w (fun _ w' =>
      ∃ b', Rewrites path w w' b' ∧ b'.length = b.length ∧ slice b' 0 start = slice b 0 start ∧
        slice b' start (start + (m.end_ - m.start)) = slice b m.start m.end_ ∧
        ∀ s e, m.end_ ≤ s → slice b' s e = slice b s e) := by
  have hst : m.start - (m.start - start) = start := by omega
  have hmid : start ≤ b.length := by omega
  unfold moveChunk
  simp only [hst]
  split
  · refine (ends_get (Q := fun a t => a = w ∧ t = w) ⟨rfl, rfl⟩).bind fun a t _ ht => ?_
    obtain ⟨rfl, rfl⟩ := ht
    rw [htr, Option.getD_some]
    refine (ends_onBlock (ends_readRow hend)).bind fun row w1 _ hrow => ?_
    obtain ⟨rfl, hw1⟩ := hrow
    refine ends_callId.bind fun _ w1' _ hw1' => ?_
    refine (ends_call ⟨rfl, rfl⟩).mono fun _ w2 _ hw2 => ?_
    rw [hw1', hw1, htr] at hw2
    have hlen : (slice b m.start m.end_).length = m.end_ - m.start := length_slice hend
    refine ⟨_, hw2, ?_, slice_overwrite_before 0 _ hmid (Nat.le_refl _), ?_, ?_⟩
    · rw [length_overwrite 0 _ hmid, hlen]; omega
    · have := slice_overwrite_at 0 (b := b) (p := start) (i := 0) (j := m.end_ - m.start)
        (slice b m.start m.end_) hmid (by omega)
      rw [Nat.add_zero] at this
      rw [this, ← hlen, slice_full]
    · intro s e hse
      exact slice_overwrite_after 0 _ hmid (by omega)
  · refine ends_pure ⟨b, .of_eq htr rfl, rfl, rfl, ?_, fun _ _ _ => rfl⟩
    congr 1 <;> omega

/-- The part of a file in front of `e` decides every slice that ends by `e`. -/
theorem slice_congr_prefix {b b' : Bytes} {s e f : Nat} (h : slice b' 0 e = slice b 0 e)
    (hf : f ≤ e) : slice b' s f = slice b s f := by
  have h' := congrArg (fun l => slice l s f) h
  simpa only [slice_slice _ (show 0 + f ≤ e by omega), Nat.zero_add] using h'

/-- The chunks are moved one after the other: reads lie behind everything
written so far, so each chunk is read as it was. -/
theorem moveChunks_spec {path info : String} {ms : List Marker} :
    ∀ {lo start : Nat} {w : World} {b : Bytes}, Spaced lo ms → start ≤ lo →
      lastEnd lo ms ≤ b.length → (w.disk path).tr = some b →
      Ends (blockFrame path) (moveChunks path info start ms) w (fun start' w' =>
        start' = start + total ms ∧ ∃ b', Rewrites path w w' b' ∧ b'.length = b.length ∧
          slice b' 0 start = slice b 0 start ∧ slice b' start start' = live b ms) := by
  induction ms with
  | nil =>
    intro lo start w b _ _ _ htr
    exact ends_pure ⟨rfl, b, .of_eq htr rfl, rfl, rfl, slice_eq_nil b (Nat.le_refl _)⟩
  | cons m ms ih =>
    intro lo start w b h hs hb htr
    obtain ⟨hlo, hne, hsp⟩ := h
    have hend : m.end_ ≤ b.length := Nat.le_trans hsp.le_lastEnd hb
    have hen : m.end_ - (m.start - start) = start + (m.end_ - m.start) := by omega
    unfold moveChunks
    refine (moveChunk_spec (by omega) hne hend htr).bind fun _ w1 _ hstep => ?_
    obtain ⟨b1, hrw, hlen1, hfront, hpiece, hrest⟩ := hstep
    rw [hen]
    refine (ih hsp (by omega) (by rw [hlen1]; exact hb) hrw.tr).mono fun start' w2 _ h2 => ?_
    obtain ⟨rfl, b', hrw', hlen', hfront', hlive'⟩ := h2
    refine ⟨by rw [total_cons]; omega, b', hrw.trans hrw', hlen'.trans hlen1, ?_, ?_⟩
    · rw [ slice_congr_prefix hfront' (by omega), hfront]
    · have hkeep : live b1 ms = live b ms :=
        live_congr fun n hn => hrest _ _ (hsp.start_ge hn).1
      rw [← slice_append_slice b' (s := start) (e := start + (m.end_ - m.start)) (by omega)
        (by omega), hlive', hkeep, live_cons, slice_congr_prefix hfront' (Nat.le_refl _), hpiece]

/-- The entries and the contents `compact` leaves: the live data alone where the gaps
are at least as large as it, else everything up to the last marked byte. -/
def compacted (b : Bytes) (ms : List Marker) : List Marker × Bytes :=
  if gaps 0 ms ≥ total ms ∧ gaps 0 ms ≠ 0 then (shiftMarkers 0 ms, live b ms)
  else (ms, b.take (lastEnd 0 ms))

/-- `slide` with the size limit of a chunk as a parameter. -/
def slideBelow (limit : Nat) (path : String) (markers : List Marker) (sizeWhenOpened : Nat) :
    FileM (List Marker × Nat) :=
  let (shiftSum, sizeSum, start) := gapSums markers
  if shiftSum ≥ sizeSum ∧ shiftSum ≠ 0 then do
    openTr path "compact"
    let start ← moveChunks path (openedSize sizeWhenOpened) 0 (mergeChunksBelow limit markers)
    closeTr path "compact"
    pure (shiftMarkers 0 markers, start)
  else pure (markers, start + shiftSum)

/-- `compact` with the size limit of a chunk as a parameter. -/
def compactBelow (limit : Nat) (path : String) (markers : List Marker) : FileM (List Marker) :=
  if markers.isEmpty then do
    removeTr path
    pure markers
  else do
    openTr path "compact"
    let sizeWhenOpened ← sizeTr path "compact"
    let (markers, writtenSize) ← slideBelow limit path markers sizeWhenOpened
    truncateTr path writtenSize sizeWhenOpened
    pure markers

theorem compactBelow_chunkLimit (path : String) (ms : List Marker) :
    compactBelow chunkLimit path ms = compact path ms := by
  unfold compactBelow compact slideBelow slide
  rw [mergeChunksBelow_chunkLimit]

/-- What `slide` returns and leaves in the file, cut off behind the last entry, is
`compacted`, whatever the limit. -/
theorem slideBelow_spec (limit : Nat) {path : String} {ms : List Marker} {w : World} {b : Bytes}
    {size : Nat}
    (h : Spaced 0 ms) (hb : lastEnd 0 ms ≤ b.length) (htr : (w.disk path).tr = some b) :
    Ends (blockFrame path) (slideBelow limit path ms size) w (fun r w' =>
      ∃ b', Rewrites path w w' b' ∧ b'.length = b.length ∧ r.2 ≤ b.length ∧
        compacted b ms = (r.1, b'.take r.2)) := by
  have hsum := h.gaps_add_total
  unfold slideBelow compacted
  simp only [gapSums_spec h]
  split
  · refine (ends_openTr htr).bind fun _ w1 _ hw1 => ?_
    have htr1 : (w1.disk path).tr = some b := by rw [hw1]; exact htr
    obtain ⟨hmsp, hmend, hmtot, hmlive⟩ := mergeChunksBelow_spec limit b h
    refine (moveChunks_spec hmsp (Nat.le_refl _) (by omega) htr1).bind fun start w2 _ hw2 => ?_
    obtain ⟨rfl, b', hrw, hlen, _, hlive⟩ := hw2
    refine ends_callId.bind fun _ w3 _ hw3 => ?_
    have hw3' : w3.disk path = w2.disk path := hw3
    refine ends_pure ⟨b', ?_, hlen, by omega, ?_⟩
    · rw [Rewrites, hw3', hrw, hw1]
    · rw [← hmlive, ← hlive, slice, List.drop_zero, Nat.sub_zero]
  · refine ends_pure ⟨b, .of_eq htr rfl, rfl, by simp only; omega, ?_⟩
    simp only
    rw [← hsum, Nat.zero_add, Nat.add_comm]

theorem truncateTr_spec {path : String} {n : Nat} {w : World} {b : Bytes} (hn : n ≤ b.length)
    (htr : (w.disk path).tr = some b) :
    Ends (blockFrame path) (truncateTr path n b.length) w (fun _ w' =>
      Rewrites path w w' (b.take n)) := by
  unfold truncateTr
  split
  · refine (ends_call ⟨rfl, rfl⟩).mono fun _ w1 _ hw1 => ?_
    rw [htr, Option.map_some, resize, Nat.sub_eq_zero_of_le hn, List.replicate_zero,
      List.append_nil] at hw1
    exact hw1
  · rw [List.take_of_length_le (by omega)]
    exact ends_pure (.of_eq htr rfl)

theorem compactBelow_spec (limit : Nat) {path : String} {ms : List Marker} {w : World} {b : Bytes}
    (h : Spaced 0 ms) (hb : lastEnd 0 ms ≤ b.length) (htr : (w.disk path).tr = some b)
    (hne : ms ≠ []) :
    Ends (blockFrame path) (compactBelow limit path ms) w (fun ms' w' =>
      ms' = (compacted b ms).1 ∧ Rewrites path w w' (compacted b ms).2) := by
  unfold compactBelow
  rw [if_neg (by simpa using hne)]
  refine (ends_openTr htr).bind fun _ w0 _ hw0 => ?_
  refine (ends_sizeTr (hw0 ▸ htr)).bind fun n w1 _ hw1 => ?_
  obtain ⟨rfl, hw1⟩ := hw1
  rw [hw0] at hw1
  have htr1 : (w1.disk path).tr = some b := by rw [hw1]; exact htr
  refine (slideBelow_spec limit h hb htr1).bind fun r w2 _ hw2 => ?_
  obtain ⟨b1, hrw, hlen, hle, heq⟩ := hw2
  rw [← hlen]
  refine (truncateTr_spec (by omega) hrw.tr).bind fun _ w3 _ hw3 => ?_
  have hrw3 := hrw.trans hw3
  rw [Rewrites, hw1] at hrw3
  rw [heq]
  exact ends_pure ⟨rfl, hrw3⟩

/-! ## The stored data and the waste -/

/-- The marked pieces keep their keys, their lengths and their bytes; the file ends behind
the last one, and the gaps in it are smaller than the live data. -/
structure Compacts (b : Bytes) (ms : List Marker) (b' : Bytes) (ms' : List Marker) : Prop where
  moved : Moved b ms b' ms'
  spaced : Spaced 0 ms'
  length_eq : b'.length = lastEnd 0 ms'
  gaps_lt : gaps 0 ms' = 0 ∨ gaps 0 ms' < total ms'

theorem Compacts.length_lt {b b' : Bytes} {ms ms' : List Marker} (h : Compacts b ms b' ms')
    (hne : ms' ≠ []) : b'.length < 2 * total ms' := by
  have hpos := h.spaced.total_pos hne
  have hsum := h.spaced.gaps_add_total
  have hlen := h.length_eq
  have hlt := h.gaps_lt
  omega

theorem compacts_compacted {b : Bytes} {ms : List Marker} (h : Spaced 0 ms)
    (hb : lastEnd 0 ms ≤ b.length) : Compacts b ms (compacted b ms).2 (compacted b ms).1 := by
  unfold compacted
  split
  · obtain ⟨hsp, hend⟩ := shiftMarkers_spaced h (Nat.le_refl 0)
    have hlen := length_live h hb
    refine ⟨shiftMarkers_moved h hb (Nat.le_refl 0) ?_, hsp, ?_, .inl ?_⟩
    · rw [Nat.zero_add, ← hlen, slice_full]
    · simp only [hlen, hend, Nat.zero_add]
    · exact gaps_shiftMarkers h (Nat.le_refl 0)
  · next hno =>
    refine ⟨.of_slices fun m hm => ?_, h, by simp only [List.length_take]; omega, ?_⟩
    · exact slice_take b (h.end_le hm)
    · simp only
      omega

/-- `compact` keeps every marked piece under its key and cuts the file off behind
the last one. -/
theorem compact_spec {path : String} {ms : List Marker} {w : World} {b : Bytes} (h : Spaced 0 ms)
    (hb : lastEnd 0 ms ≤ b.length) (htr : (w.disk path).tr = some b) (hne : ms ≠ []) :
    Ends (blockFrame path) (compact path ms) w (fun ms' w' => ∃ b', Rewrites path w w' b' ∧
      b'.length = lastEnd 0 ms' ∧ Spaced 0 ms' ∧ Moved b ms b' ms') := by
  have hc := compacts_compacted h hb
  rw [← compactBelow_chunkLimit]
  refine (compactBelow_spec chunkLimit h hb htr hne).mono fun ms' w' _ hw => ?_
  obtain ⟨rfl, hrw⟩ := hw
  exact ⟨_, hrw, hc.length_eq, hc.spaced, hc.moved⟩

theorem compact_nil_spec {path : String} {w : World} :
    Ends (blockFrame path) (compact path []) w (fun ms' w' =>
      ms' = [] ∧ w'.disk path = { w.disk path with tr := none }) := by
  unfold compact removeTr
  simp only [List.isEmpty_nil, if_true]
  refine Ends.bind (Q := fun _ w' => w'.disk path = { w.disk path with tr := none }) ?_
    fun _ w' _ hw => ends_pure ⟨rfl, hw⟩
  refine (ends_get (Q := fun a t => a = w ∧ t = w) ⟨rfl, rfl⟩).bind fun a t _ ht => ?_
  obtain ⟨rfl, rfl⟩ := ht
  split
  · exact ends_call ⟨rfl, rfl⟩
  · next hno =>
    have hno' : (t.disk path).tr = none := by simpa using hno
    refine ends_pure ?_
    rw [← hno']

/-- Pending contents with gaps in front of both rows, as large together as the rows. -/
def Gap.disk : Disk := fun _ => ⟨none, none, some [7, 7, 7, 1, 2, 7, 3], none⟩

/-- **Compaction keeps the data and bounds the waste.** Where the calls succeed, `compact`
returns entries that designate the old pieces under their keys, in a file that ends behind the
last one and is less than twice as long as its live data; the limit of a chunk plays no part. -/
theorem compact_keeps_data {path : String} {ms : List Marker} {d : Disk} {b : Bytes}
    (h : Spaced 0 ms) (hne : ms ≠ []) (hb : lastEnd 0 ms ≤ b.length)
    (htr : (d path).tr = some b) :
    ∃ ms' b', Compacts b ms b' ms' ∧ b'.length < 2 * total ms' ∧
      compact path ms ⟨d, []⟩ =
        .ok ms' ⟨Function.update d path { d path with tr := some b' }, []⟩ ∧
      ∀ limit, compactBelow limit path ms ⟨d, []⟩ =
        .ok ms' ⟨Function.update d path { d path with tr := some b' }, []⟩ := by
  have hc := compacts_compacted h hb
  have hlength : ms.length = (compacted b ms).1.length := hc.moved.length_eq
  have hne' : (compacted b ms).1 ≠ [] := fun hnil => hne (List.length_eq_zero_iff.mp (by
    rw [hlength, hnil, List.length_nil]))
  have hrun : ∀ limit, compactBelow limit path ms ⟨d, []⟩ = .ok (compacted b ms).1
      ⟨Function.update d path { d path with tr := some (compacted b ms).2 }, []⟩ := by
    intro limit
    obtain ⟨ms', f, hr, -, rfl, hrw⟩ :=
      returns_block (compactBelow_spec limit (w := ⟨d, []⟩) h hb htr hne)
    unfold Rewrites at hrw
    have hf : f = { d path with tr := some (compacted b ms).2 } :=
      (Function.update_self path f d).symm.trans hrw
    rw [hr, hf]
  refine ⟨_, _, hc, hc.length_lt hne', ?_, hrun⟩
  rw [← compactBelow_chunkLimit]
  exact hrun chunkLimit

theorem compact_keeps_data_gap : ∃ ms' b',
    Compacts [7, 7, 7, 1, 2, 7, 3] [⟨3, 5, 0⟩, ⟨6, 7, 1⟩] b' ms' ∧ b'.length < 2 * total ms' ∧
      compact "gap" [⟨3, 5, 0⟩, ⟨6, 7, 1⟩] ⟨Gap.disk, []⟩ = .ok ms'
        ⟨Function.update Gap.disk "gap" { Gap.disk "gap" with tr := some b' }, []⟩ ∧
      ∀ limit, compactBelow limit "gap" [⟨3, 5, 0⟩, ⟨6, 7, 1⟩] ⟨Gap.disk, []⟩ = .ok ms'
        ⟨Function.update Gap.disk "gap" { Gap.disk "gap" with tr := some b' }, []⟩ :=
  compact_keeps_data ⟨by decide, by decide, by decide, by decide, trivial⟩ (by decide) (by decide)
    rfl

end MeshPP.SystemUtility
