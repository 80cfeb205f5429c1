import MetaPool.Price.Feed
import MetaPool.Proofs.Collection.Values
import MetaPool.Proofs.InPlace

/-!
# Writing the feeds in place

A feed is opened or gets a new round by one write, before which everything is checked. So each instruction
happens or leaves the feeds as they were.

    i.carryOut = allOrNothing i.apply                               (carryOut_eq)
-/

namespace MetaPool.FeedBook

open InPlace

variable {source : Address} {round : Round}

/-- What the feeds can be told to do. -/
inductive Instruction where
  | add (source : Address) (round : Round)
  | publish (source : Address) (round : Round)

/-- The feeds that an instruction makes out of feeds. -/
def Instruction.apply (i : Instruction) (n : FeedBook) : Except Fault FeedBook :=
  match i with
  | add source round => n.add source round
  | publish source round => n.publish source round

def addInPlace (source : Address) (round : Round) : Routine FeedBook Unit :=
  if source.isEmpty then throw .invalidSource
  else do
    if (← get).contains source then throw (.alreadyRegistered source)
    else modify fun n => ⟨n.feeds.insert source round⟩

def publishInPlace (source : Address) (round : Round) : Routine FeedBook Unit := do
  let _ ← look (·.latest source)
  modify fun n => ⟨n.feeds.adjust source fun _ => round⟩

/-- Carries out an instruction step by step. -/
def Instruction.carryOut : Instruction → Routine FeedBook Unit
  | add source round => addInPlace source round
  | publish source round => publishInPlace source round

theorem addInPlace_eq (source : Address) (round : Round) (n : FeedBook) :
    addInPlace source round n = allOrNothing (·.add source round) n := by
  by_cases hempty : source.isEmpty = true
  · have hadd : n.add source round = .error .invalidSource := if_pos hempty
    rw [allOrNothing_of_error hadd, addInPlace, if_pos hempty]
    rfl
  rw [addInPlace, if_neg hempty]
  show (if n.contains source then throw (.alreadyRegistered source)
    else modify fun n => ⟨n.feeds.insert source round⟩ : Routine FeedBook Unit) n = _
  by_cases hknown : n.contains source = true
  · have hadd : n.add source round = .error (.alreadyRegistered source) := by
      rw [add, if_neg hempty, if_pos hknown]
    rw [allOrNothing_of_error hadd, if_pos hknown]
    rfl
  · have hadd : n.add source round = .ok ⟨n.feeds.insert source round⟩ := by
      rw [add, if_neg hempty, if_neg hknown]
    rw [allOrNothing_of_ok hadd, if_neg hknown]
    rfl

theorem publishInPlace_eq (source : Address) (round : Round) (n : FeedBook) :
    publishInPlace source round n = allOrNothing (·.publish source round) n := by
  rw [publishInPlace, look_bind]
  cases hfeed : n.feeds.get? source with
  | none =>
    have hlatest : n.latest source = .error .invalidSource := by simp only [latest, hfeed]
    have hpublish : n.publish source round = .error .invalidSource :=
      if_neg (by simp [contains, OrderedMap.contains, hfeed])
    rw [hlatest, allOrNothing_of_error hpublish]
  | some present =>
    have hlatest : n.latest source = .ok present := by simp only [latest, hfeed]
    have hpublish : n.publish source round = .ok ⟨n.feeds.insert source round⟩ :=
      if_pos (by simp [contains, OrderedMap.contains, hfeed])
    rw [hlatest, allOrNothing_of_ok hpublish, ← OrderedMap.adjust_eq_insert hfeed fun _ => round]
    rfl

/-- Every instruction happens or leaves the feeds as they were. -/
theorem carryOut_eq (i : Instruction) (n : FeedBook) : i.carryOut n = allOrNothing i.apply n := by
  cases i with
  | add source round => exact addInPlace_eq source round n
  | publish source round => exact publishInPlace_eq source round n

end MetaPool.FeedBook
