import Recordkeeper.Proofs.Cache.Purging

/-!
A purge follows the cursor to the end or deletes nothing. Whatever the replies are, each command of
the walk asks from the cursor that the reply before it named; behind the first reply that names none
one deletion follows, of the base key and all keys in the order in which they came, and behind one
that cannot be read nothing follows.
-/

set_option autoImplicit false

namespace Recordkeeper.Redis

def noneLeft : Reply := .list [.text "0", .list []]

/-- The first replies bring these batches, and each names a cursor to go on from. -/
structure Passes (replies : List Reply) (batches : List (UInt64 × List String)) : Prop where
  brought : (replies.take batches.length).map Reply.batch? = batches.map some
  onward : ∀ b ∈ batches, b.1 ≠ 0

def walkBy (base : String) (cursors : List UInt64) : List Command :=
  cursors.map fun cursor =>
    ["SCAN", toString cursor, "MATCH", variantsPattern base, "COUNT", "100"]

@[simp] theorem walkBy_nil (base : String) : walkBy base [] = [] := rfl

@[simp] theorem walkBy_cons (base : String) (cursor : UInt64) (cursors : List UInt64) :
    walkBy base (cursor :: cursors) = scanCommand base cursor :: walkBy base cursors := rfl

/-- How a purge goes: its answer, and the connection afterwards. -/
inductive Purges (base : String) (c : Connection) :
    Except CacheError UInt64 → Connection → Prop where
  | unreachable : c.closed = true → Purges base c (.error unreachable) c
  | completed {batches : List (UInt64 × List String)} {keys : List String}
      {answer : Except CacheError UInt64} :
      c.closed = false → Passes c.replies batches →
      (c.replies[batches.length]?.getD noneLeft).batch? = some (0, keys) →
      (∀ n, answer = .ok n ↔
        (c.replies[batches.length + 1]?.getD (.int 0)).number? = some n) →
      Purges base c answer
        { c with
          replies := c.replies.drop (batches.length + 2)
          sent := c.sent ++ walkBy base (0 :: batches.map (·.1)) ++
            ["DEL" :: base :: (batches.flatMap (·.2) ++ keys)] }
  /-- The walk came to a reply that brings no batch: a failure, or something of another shape. -/
  | brokenOff {batches : List (UInt64 × List String)} {r : Reply} (reason : String) :
      c.closed = false → Passes c.replies batches →
      c.replies[batches.length]? = some r → r.batch? = none →
      Purges base c (.error (failed "SCAN" reason))
        { c with
          replies := c.replies.drop (batches.length + 1)
          sent := c.sent ++ walkBy base (0 :: batches.map (·.1)) }

section

variable {β : Type} {command : String} {read : Reply → Option β} {r : Reply}

theorem readReply_of_none (h : read r = none) :
    ∃ reason, readReply command read r = .error (failed command reason) := by
  unfold readReply
  split
  · exact ⟨_, rfl⟩
  · exact ⟨_, rfl⟩
  · exact ⟨_, by rw [h]⟩

theorem readReply_eq_ok (herror : ∀ m, read (.error m) = none) (hbroken : read .broken = none)
    {b : β} : readReply command read r = .ok b ↔ read r = some b := by
  unfold readReply
  split
  · simp [herror]
  · simp [hbroken]
  · cases read r <;> simp

end

theorem Passes.cons {r : Reply} {replies : List Reply} {b : UInt64 × List String}
    {batches : List (UInt64 × List String)} (h : Passes replies batches) (hr : r.batch? = some b)
    (hb : b.1 ≠ 0) : Passes (r :: replies) (b :: batches) where
  brought := by simp [hr, h.brought]
  onward := List.forall_mem_cons.2 ⟨hb, h.onward⟩

theorem passes_nil (replies : List Reply) : Passes replies [] := ⟨rfl, by simp⟩

theorem scan_cases (base : String) (replies : List Reply) (cursor : UInt64) (found : List String)
    (sent : List Command) :
    ∃ batches, Passes replies batches ∧
      ((∃ keys, (replies[batches.length]?.getD noneLeft).batch? = some (0, keys) ∧
        scan base cursor found sent replies =
          (.ok (found ++ (batches.flatMap (·.2) ++ keys)),
            sent ++ walkBy base (cursor :: batches.map (·.1)),
            replies.drop (batches.length + 1))) ∨
      ∃ r reason, replies[batches.length]? = some r ∧ r.batch? = none ∧
        scan base cursor found sent replies =
          (.error (failed "SCAN" reason), sent ++ walkBy base (cursor :: batches.map (·.1)),
            replies.drop (batches.length + 1))) := by
  induction replies generalizing cursor found sent with
  | nil => exact ⟨[], passes_nil _, .inl ⟨[], by decide, by simp [scan]⟩⟩
  | cons r rest ih =>
    cases hr : r.batch? with
    | none =>
      obtain ⟨reason, hread⟩ :
          ∃ reason, readReply "SCAN" Reply.batch? r = .error (failed "SCAN" reason) :=
        readReply_of_none hr
      exact ⟨[], passes_nil _, .inr ⟨r, reason, rfl, hr, by simp [scan, hread]⟩⟩
    | some b =>
      obtain ⟨next, keys⟩ := b
      have hread := readReply_batch hr
      by_cases hnext : next = 0
      · subst hnext
        exact ⟨[], passes_nil _, .inl ⟨keys, hr, by simp [scan, hread]⟩⟩
      · have hscan : scan base cursor found sent (r :: rest) =
            scan base next (found ++ keys) (sent ++ [scanCommand base cursor]) rest := by
          simp [scan, hread, hnext]
        obtain ⟨batches, hpasses, hend⟩ :=
          ih next (found ++ keys) (sent ++ [scanCommand base cursor])
        refine ⟨(next, keys) :: batches, hpasses.cons hr hnext, ?_⟩
        rw [hscan]
        rcases hend with ⟨last, hlast, h⟩ | ⟨r', reason, hr', hnone, h⟩
        · exact .inl ⟨last, hlast, by simp [h]⟩
        · exact .inr ⟨r', reason, hr', hnone, by simp [h]⟩

theorem exchange_eq (c : Connection) (command : Command) (default : Reply) :
    c.exchange command default =
      (c.replies.head?.getD default,
        { c with replies := c.replies.tail, sent := c.sent ++ [command] }) := by
  unfold Connection.exchange
  cases c.replies <;> rfl

/-- Every purge follows the cursor to the end, and then deletes once, or breaks off and deletes
nothing. -/
theorem purges_or_breaks_off (c : Connection) (base : String) :
    Purges base c (answer c (.purge base)).1 (answer c (.purge base)).2 := by
  cases hclosed : c.closed with
  | true =>
    simp only [answer, hclosed]
    exact .unreachable hclosed
  | false =>
    have hopen : answer c (.purge base) = purge c base := by
      simp only [answer, hclosed]
      rfl
    rw [hopen]
    obtain ⟨batches, hpasses, hend⟩ := scan_cases base c.replies 0 [] c.sent
    rcases hend with ⟨keys, hlast, hscan⟩ | ⟨r, reason, hr, hnone, hscan⟩
    · simp only [purge, hscan, exchange_eq, List.head?_drop, List.tail_drop, List.nil_append]
      exact .completed hclosed hpasses hlast fun n => readReply_eq_ok (fun _ => rfl) rfl
    · simp only [purge, hscan]
      exact .brokenOff reason hclosed hpasses hr hnone

example :
    (answer { replies := [.list [.text "7", .list [.text "k:1"]], .error "busy"] }
      (.purge "k")).2.sent = walkBy "k" [0, 7] := by decide +kernel

end Recordkeeper.Redis
