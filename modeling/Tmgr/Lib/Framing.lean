import Mathlib.Data.List.Induction
import Mathlib.Data.Nat.Notation

/-!
# Length-prefixed frames

A frame is a header of a fixed size, which says how long the body is, and the
body. `Format` is what writer and reader agree on; the writer's header of a
body it cannot announce is one the reader reads differently, or refuses.

The reader takes the stream one symbol at a time, so it does not matter in
what pieces the stream arrives. `Carries` says that a body is announced as it
is. A stream of carried bodies is cut into exactly these (`read_frames`); a
body that is refused, or cut short where its rest is refused, leaves the
reader stopped for good (`feed_refused`, `feed_truncated`).
-/

namespace Framing

variable {β : Type*}

structure Format (β : Type*) where
  headerSize : ℕ
  headerSize_pos : 0 < headerSize
  /-- the header of a body of this size -/
  header : ℕ → List β
  length_header : ∀ n, (header n).length = headerSize
  /-- the size that a header announces, or 0 where the reader refuses it -/
  bodySize : List β → ℕ

/-- Where the reader stands, with what it has read of a header or a body. -/
inductive Position (β : Type*) where
  | header (got : List β)
  | body (size : ℕ) (got : List β)
  | stopped
  deriving DecidableEq

structure Reader (β : Type*) where
  bodies : List (List β) := []
  position : Position β := .header []
  deriving DecidableEq

namespace Format

variable (F : Format β)

def feed (r : Reader β) (b : β) : Reader β :=
  match r.position with
  | .header got =>
    if got.length + 1 < F.headerSize then { r with position := .header (got ++ [b]) }
    else if F.bodySize (got ++ [b]) = 0 then { r with position := .stopped }
    else { r with position := .body (F.bodySize (got ++ [b])) [] }
  | .body size got =>
    if got.length + 1 < size then { r with position := .body size (got ++ [b]) }
    else ⟨r.bodies ++ [got ++ [b]], .header []⟩
  | .stopped => r

def read (stream : List β) : Reader β :=
  stream.foldl F.feed {}

def frame (body : List β) : List β :=
  F.header body.length ++ body

/-- The body's header announces just its size, which is not 0. -/
def Carries (body : List β) : Prop :=
  F.bodySize (F.header body.length) = body.length ∧ body ≠ []

variable {F} {bodies : List (List β)}

/-! ## One frame -/

theorem feed_stopped (l : List β) :
    l.foldl F.feed ⟨bodies, .stopped⟩ = ⟨bodies, .stopped⟩ := by
  induction l with
  | nil => rfl
  | cons b l ih => exact ih

/-- The rest of a header. -/
theorem feed_header {got l : List β} (hne : l ≠ []) (hlen : got.length + l.length = F.headerSize) :
    l.foldl F.feed ⟨bodies, .header got⟩ =
      if F.bodySize (got ++ l) = 0 then ⟨bodies, .stopped⟩
      else ⟨bodies, .body (F.bodySize (got ++ l)) []⟩ := by
  induction l generalizing got with
  | nil => exact absurd rfl hne
  | cons b l ih =>
      rw [List.length_cons] at hlen
      cases l with
      | nil =>
          have hlast : ¬got.length + 1 < F.headerSize := by simp at hlen; omega
          simp only [List.foldl_cons, List.foldl_nil, feed, if_neg hlast]
      | cons c l =>
          have hmore : got.length + 1 < F.headerSize := by simp at hlen; omega
          rw [List.foldl_cons]
          simp only [feed, if_pos hmore]
          rw [ih (by simp) (by simp at hlen ⊢; omega)]
          simp

/-- The rest of a body. -/
theorem feed_body {got l : List β} {size : ℕ} (hne : l ≠ [])
    (hlen : got.length + l.length = size) :
    l.foldl F.feed ⟨bodies, .body size got⟩ = ⟨bodies ++ [got ++ l], .header []⟩ := by
  induction l generalizing got with
  | nil => exact absurd rfl hne
  | cons b l ih =>
      rw [List.length_cons] at hlen
      cases l with
      | nil =>
          have hlast : ¬got.length + 1 < size := by simp at hlen; omega
          simp only [List.foldl_cons, List.foldl_nil, feed, if_neg hlast]
      | cons c l =>
          have hmore : got.length + 1 < size := by simp at hlen; omega
          rw [List.foldl_cons]
          simp only [feed, if_pos hmore]
          rw [ih (by simp) (by simp at hlen ⊢; omega)]
          simp

theorem feed_whole_header {l : List β} (hlen : l.length = F.headerSize) :
    l.foldl F.feed ⟨bodies, .header []⟩ =
      if F.bodySize l = 0 then ⟨bodies, .stopped⟩ else ⟨bodies, .body (F.bodySize l) []⟩ := by
  have hpos := F.headerSize_pos
  have hne : l ≠ [] := by
    rintro rfl
    simp at hlen
    omega
  rw [feed_header hne (by simpa using hlen), List.nil_append]

theorem feed_carried_header {body : List β} (h : F.Carries body) :
    (F.header body.length).foldl F.feed ⟨bodies, .header []⟩
      = ⟨bodies, .body body.length []⟩ := by
  have hpos : body.length ≠ 0 := fun h0 => h.2 (List.eq_nil_of_length_eq_zero h0)
  rw [feed_whole_header (F.length_header _), h.1, if_neg hpos]

theorem feed_frame {body : List β} (h : F.Carries body) :
    (F.frame body).foldl F.feed ⟨bodies, .header []⟩ = ⟨bodies ++ [body], .header []⟩ := by
  rw [frame, List.foldl_append, feed_carried_header h, feed_body h.2 (by simp), List.nil_append]

theorem feed_refused {body : List β} (h : F.bodySize (F.header body.length) = 0) :
    (F.frame body).foldl F.feed ⟨bodies, .header []⟩ = ⟨bodies, .stopped⟩ := by
  rw [frame, List.foldl_append, feed_whole_header (F.length_header _), if_pos h, feed_stopped]

/-- The header announces too little, and what follows is refused as the next
header. -/
theorem feed_truncated {body : List β} {size : ℕ}
    (hsize : F.bodySize (F.header body.length) = size) (hpos : 0 < size)
    (hlen : size + F.headerSize ≤ body.length)
    (hnext : F.bodySize ((body.drop size).take F.headerSize) = 0) :
    (F.frame body).foldl F.feed ⟨bodies, .header []⟩
      = ⟨bodies ++ [body.take size], .stopped⟩ := by
  have hcut : (body.take size).length = size := by
    rw [List.length_take]
    omega
  have hbody : body = body.take size
      ++ ((body.drop size).take F.headerSize ++ (body.drop size).drop F.headerSize) := by
    rw [List.take_append_drop, List.take_append_drop]
  have hne : body.take size ≠ [] := List.ne_nil_of_length_pos (by omega)
  rw [frame, List.foldl_append, feed_whole_header (F.length_header _), hsize, if_neg (by omega)]
  conv_lhs => rw [hbody]
  rw [List.foldl_append, feed_body hne (by simpa using hcut), List.nil_append, List.foldl_append,
    feed_whole_header (by simp; omega), if_pos hnext, feed_stopped]

/-! ## Whole streams -/

theorem read_append (l l' : List β) : F.read (l ++ l') = l'.foldl F.feed (F.read l) :=
  List.foldl_append

/-- Frames of carried bodies are cut into just these bodies. -/
theorem read_frames (h : ∀ body ∈ bodies, F.Carries body) :
    F.read (bodies.map F.frame).flatten = ⟨bodies, .header []⟩ := by
  induction bodies using List.reverseRecOn with
  | nil => rfl
  | append_singleton bodies body ih =>
      rw [List.map_append, List.flatten_append, read_append,
        ih fun b hb => h b (List.mem_append_left _ hb)]
      simpa using feed_frame (h body (by simp))

theorem feed_bodies (r : Reader β) (b : β) : r.bodies <+: (F.feed r b).bodies := by
  unfold feed
  split
  · split
    · exact List.prefix_rfl
    · split <;> exact List.prefix_rfl
  · split
    · exact List.prefix_rfl
    · exact List.prefix_append _ _
  · exact List.prefix_rfl

/-- What has been cut off the stream stays. -/
theorem read_mono {l l' : List β} (h : l <+: l') : (F.read l).bodies <+: (F.read l').bodies := by
  obtain ⟨rest, rfl⟩ := h
  induction rest using List.reverseRecOn with
  | nil => simp
  | append_singleton rest b ih =>
      rw [← List.append_assoc, read_append, List.foldl_cons, List.foldl_nil]
      exact ih.trans (feed_bodies _ b)

/-- Of a stream that breaks off anywhere, only bodies that were carried are
cut. -/
theorem read_part {l : List β} (h : ∀ body ∈ bodies, F.Carries body)
    (hl : l <+: (bodies.map F.frame).flatten) : (F.read l).bodies <+: bodies := by
  have hmono := read_mono (F := F) hl
  rwa [read_frames h] at hmono

/-- A stream that breaks off after a header. -/
theorem read_frames_header {body : List β} (h : ∀ body ∈ bodies, F.Carries body)
    (hbody : F.Carries body) :
    F.read ((bodies.map F.frame).flatten ++ F.header body.length)
      = ⟨bodies, .body body.length []⟩ := by
  rw [read_append, read_frames h, feed_carried_header hbody]

/-- Once a frame has left the reader stopped, nothing restarts it. -/
theorem read_stopped {body : List β} {cut : List (List β)} (rest : List (List β))
    (h : ∀ body ∈ bodies, F.Carries body)
    (hstop : (F.frame body).foldl F.feed ⟨bodies, .header []⟩ = ⟨cut, .stopped⟩) :
    F.read ((bodies ++ body :: rest).map F.frame).flatten = ⟨cut, .stopped⟩ := by
  rw [List.map_append, List.flatten_append, read_append, read_frames h, List.map_cons,
    List.flatten_cons, List.foldl_append, hstop, feed_stopped]

end Format

end Framing
