import ChainKit.Config
import ChainKit.Lib.Recent
import ChainKit.Lib.Schedule

/-! The composite penalty store: a table in PostgreSQL, lists in Redis in front of it, and the
goroutines that append to the lists. -/
namespace ChainKit.Store
open Lib
variable {α : Type}

/-- `PenaltyRecordData`; `fields` stands for what the stores only copy. -/
structure PenaltyRecordData (α : Type) where
  providerName : String
  createdAt : ℤ
  fields : α
  deriving DecidableEq

/-- What an `Append` of either store keeps: a missing record and one without a provider are
ignored. -/
def kept (record : Option (PenaltyRecordData α)) : Option (PenaltyRecordData α) :=
  record.filter fun r => r.providerName ≠ ""

/-- The answers of PostgreSQL: what a `TIMESTAMPTZ` column keeps of a time, and the rows from the
newest to the oldest, in any order where the times are the same. -/
structure Postgres (α : Type) where
  column : ℤ → ℤ
  order : List (PenaltyRecordData α) → List (PenaltyRecordData α)
  perm : ∀ rows, (order rows).Perm rows
  sorted : ∀ rows, (order rows).Pairwise (fun r q => q.createdAt ≤ r.createdAt)

/-- Where reading the rows of a query may fail. -/
inductive QueryStage
  | query
  | scan
  | rows

def QueryStage.text : QueryStage → String
  | .query => "postgres penalty store: query: "
  | .scan => "postgres penalty store: scan: "
  | .rows => "postgres penalty store: rows: "

namespace Postgres
variable (pg : Postgres α)

/-- The row of a record; the zero time stands for the current one. -/
def row (now : ℤ) (r : PenaltyRecordData α) : PenaltyRecordData α :=
  { r with createdAt := pg.column (if r.createdAt = 0 then now else r.createdAt) }

def append (rows : List (PenaltyRecordData α)) (now : ℤ) (fault : Option GoError)
    (record : Option (PenaltyRecordData α)) : Except GoError (List (PenaltyRecordData α)) :=
  match kept record,fault with
  | none,_ => .ok rows
  | some _,some e => .error (.wrap "postgres penalty store: insert: " e "")
  | some r,none => .ok (rows ++ [pg.row now r])

def getRecent (rows : List (PenaltyRecordData α)) (fault : Option (QueryStage × GoError))
    (providerName : String) (limit : ℤ) : Except GoError (List (PenaltyRecordData α)) :=
  if limit ≤ 0 then .ok []
  else match fault with
    | some (stage,e) => .error (.wrap stage.text e "")
    | none =>
      .ok ((pg.order (rows.filter (·.providerName = providerName))).take limit.toNat).reverse

end Postgres

namespace Redis

/-- The elements of a list from one index to another, as LRANGE and LTRIM count them: a negative
index counts from the end, and the last one is -1. -/
def range (l : List α) (start stop : ℤ) : List α :=
  let len : ℤ := l.length
  let start := max 0 (if start < 0 then len+start else start)
  let stop := if stop < 0 then len+stop else stop
  if stop < start ∨ len ≤ start then [] else (l.take (min stop (len-1)+1).toNat).drop start.toNat

theorem range_to_end (l : List α) (start : ℤ) : range l start (-1) =
    l.drop (if start < 0 then l.length+start else start).toNat := by
  simp only [range]
  generalize hfirst : (if start < 0 then (l.length : ℤ)+start else start) = first
  by_cases hempty : (if (-1 : ℤ) < 0 then (l.length : ℤ)+-1 else -1) < max 0 first ∨
      (l.length : ℤ) ≤ max 0 first
  · rw [if_pos hempty,List.drop_eq_nil_of_le]
    omega
  · rw [if_neg hempty,List.take_of_length_le (by omega)]
    congr 1
    omega

theorem range_last (l : List α) {limit : ℤ} (h : 0 < limit) :
    range l (-limit) (-1) = l.drop (l.length-limit.toNat) := by
  rw [range_to_end,if_pos (by omega)]
  congr 1
  omega

end Redis

structure RedisPenaltyConfig where
  ttl : ℤ
  maxEntriesPerProvider : ℤ
  deriving DecidableEq

/-- The defaults of `NewRedisPenaltyStore`. -/
def RedisPenaltyConfig.orDefault (config : RedisPenaltyConfig) : RedisPenaltyConfig where
  ttl := if config.ttl = 0 then 7*24*60*Duration.minute else config.ttl
  maxEntriesPerProvider :=
    if config.maxEntriesPerProvider = 0 then 500 else config.maxEntriesPerProvider

namespace Redis

/-- The commands of the pipeline of `Append`. -/
inductive Command
  | rpush
  | ltrim
  | expire

/-- A command on the list of the provider. A deadline that has passed removes the list. -/
def Command.exec (config : RedisPenaltyConfig) (r : PenaltyRecordData α)
    (l : List (PenaltyRecordData α)) : Command → List (PenaltyRecordData α)
  | .rpush => l ++ [r]
  | .ltrim => range l (-config.maxEntriesPerProvider) (-1)
  | .expire => if config.ttl ≤ 0 then [] else l

/-- The list after the first `done` commands of the pipeline. -/
def pipeline (config : RedisPenaltyConfig) (done : ℕ) (r : PenaltyRecordData α)
    (l : List (PenaltyRecordData α)) : List (PenaltyRecordData α) :=
  ([.rpush,.ltrim,.expire].take done).foldl (Command.exec config r) l

/-- `Append`, where `done` commands reach the server: with fewer than three it returns an error,
which nobody reads. -/
def append (config : RedisPenaltyConfig) (lists : String → List (PenaltyRecordData α))
    (done : ℕ) (record : Option (PenaltyRecordData α)) : String → List (PenaltyRecordData α) :=
  match kept record with
  | none => lists
  | some r =>
    Function.update lists r.providerName (pipeline config done r (lists r.providerName))

/-- How LRANGE returns: with the values, with an error alone, or with an error after some of the
values. -/
inductive Reply
  | complete
  | failed (e : GoError)
  | broken (e : GoError)

/-- An error without values reads as an empty list. -/
def getRecent (lists : String → List (PenaltyRecordData α)) (reply : Reply)
    (providerName : String) (limit : ℤ) : Except GoError (List (PenaltyRecordData α)) :=
  if limit ≤ 0 then .ok []
  else match reply with
    | .complete => .ok (range (lists providerName) (-limit) (-1))
    | .failed _ => .ok []
    | .broken e => .error (.wrap "redis penalty store: lrange: " e "")

end Redis

/-- The rows of the table in the order of their ids, the lists under the keys of the providers,
and the records of the goroutines that have not run yet. -/
structure CompositePenaltyStore (α : Type) where
  config : RedisPenaltyConfig
  rows : List (PenaltyRecordData α)
  lists : String → List (PenaltyRecordData α)
  background : List (Option (PenaltyRecordData α))

/-- `NewCompositePenaltyStore` over a table and a Redis server without lists. -/
def newCompositePenaltyStore (config : RedisPenaltyConfig) (rows : List (PenaltyRecordData α)) :
    CompositePenaltyStore α := ⟨config.orDefault,rows,fun _ => [],[]⟩

/-- What happens to a store: a call of `Append`, a goroutine that gets to its pipeline or gives
up before it, and a list that expires. -/
inductive PenaltyStep (α : Type)
  | append (record : Option (PenaltyRecordData α)) (now : ℤ) (fault : Option GoError)
  | background (i done : ℕ)
  | expire (providerName : String)

namespace CompositePenaltyStore
variable (pg : Postgres α)

def append (s : CompositePenaltyStore α) (record : Option (PenaltyRecordData α)) (now : ℤ)
    (fault : Option GoError) : Except GoError Unit × CompositePenaltyStore α :=
  match pg.append s.rows now fault record with
  | .error e => (.error e,s)
  | .ok rows => (.ok (),{ s with rows := rows, background := s.background ++ [record] })

def getRecent (s : CompositePenaltyStore α) (reply : Redis.Reply)
    (fault : Option (QueryStage × GoError)) (providerName : String) (limit : ℤ) :
    Except GoError (List (PenaltyRecordData α)) :=
  match Redis.getRecent s.lists reply providerName limit with
  | .ok (r :: rest) => .ok (r :: rest)
  | _ => pg.getRecent s.rows fault providerName limit

def exec (s : CompositePenaltyStore α) : PenaltyStep α → CompositePenaltyStore α
  | .append record now fault => (s.append pg record now fault).2
  | .background i done =>
    match s.background[i]? with
    | none => s
    | some record =>
      { s with lists := Redis.append s.config s.lists done record
               background := s.background.eraseIdx i }
  | .expire providerName => { s with lists := Function.update s.lists providerName [] }

def run (s : CompositePenaltyStore α) (steps : List (PenaltyStep α)) : CompositePenaltyStore α :=
  steps.foldl (exec pg) s

def rowsOf (s : CompositePenaltyStore α) (providerName : String) : List (PenaltyRecordData α) :=
  s.rows.filter (·.providerName = providerName)

end CompositePenaltyStore
end ChainKit.Store
