import Bookkeeping.Service.TableCall

/-! # Programs of calls on tables

A program puts calls on tables together: one after the other, each choosing what comes next by its
answer, in blocks that are one unit, with failures of its own, and with handlers that go on after a
failure. Blocks stand in blocks to any depth. A thread counts how deep in blocks it is, and only the
block at depth zero begins and ends a transaction.
-/

namespace Bookkeeping.Service

open Store

/-- A program of calls on tables. -/
inductive Program where
  | done (answer : Answer)
  | call (c : TableCall)
  | fail (e : Failure)
  /-- A block, which is one unit unless it stands in another one. -/
  | block (body : Program)
  | seq (first : Program) (next : Answer → Program)
  /-- A program and what is done if it fails. -/
  | handle (body : Program) (handler : Failure → Program)

namespace Program

/-- Does what a program says. -/
def run : Program → Op Answer
  | done answer => pure answer
  | call c => c.run
  | fail e => Op.fail e
  | block body => transaction body.run
  | seq first next => first.run >>= fun a => (next a).run
  | handle body handler => tryCatch body.run fun e => (handler e).run

end Program

/-! ## Counting blocks -/

/-- A session as a thread uses it, which counts the blocks that it is in. -/
structure Thread where
  session : Session
  depth : Nat := 0

namespace Thread

variable {α : Type}

/-- Runs a block. A block at depth zero begins a transaction, and ends it as the block ends; one that
is deeper only counts, and takes its count back however it ends. -/
def block (body : Thread → Except Failure α × Thread) (w : Thread) : Except Failure α × Thread :=
  if w.depth = 0 then
    match openBlock.exec w.session with
    | (.error e, t) => (.error e, ⟨t, 0⟩)
    | (.ok (), t) =>
      match body ⟨t, 1⟩ with
      | (.error e, v) => (.error e, ⟨v.session.rollBack, 0⟩)
      | (.ok a, v) =>
        match closeBlock.exec v.session with
        | (.error e, t) => (.error e, ⟨t, 0⟩)
        | (.ok (), t) => (.ok a, ⟨t, 0⟩)
  else
    let (r, v) := body { w with depth := w.depth + 1 }
    (r, { v with depth := w.depth })

end Thread

/-- Does what a program says, with the depth counted. -/
def Program.counted : Program → Thread → Except Failure Answer × Thread
  | done answer, w => (.ok answer, w)
  | call c, w =>
    let (r, t) := c.run.exec w.session
    (r, { w with session := t })
  | fail e, w => (.error e, w)
  | block body, w => w.block body.counted
  | seq first next, w =>
    match first.counted w with
    | (.ok a, v) => (next a).counted v
    | (.error e, v) => (.error e, v)
  | handle body handler, w =>
    match body.counted w with
    | (.ok a, v) => (.ok a, v)
    | (.error e, v) => (handler e).counted v

end Bookkeeping.Service
