import Tmgr.DbInv
import Tmgr.Wire

/-!
# The dump of a database

`dump_state` of `tm_dump.hh`, which `GET /dump` and `tm-replay` share.
-/

namespace Tmgr

open TaskManagerDb

def TaskRecord.dump (t : TaskRecord) : Json :=
  Json.ofFields
    [("id", .string t.id), ("spec", t.spec.toJson), ("status", .string t.status.name),
     ("owner_agent", .string t.ownerAgent), ("owner_token", .unsigned t.ownerToken),
     ("heartbeat_unix", .integer t.heartbeatUnix),
     ("result_branch", .string (t.resultBranch.getD "")),
     ("result_summary", .string (t.resultSummary.getD "")),
     ("fail_reason", .string (t.failReason.getD ""))]

/-- `tasks().at(tid)` finds a record for every entry of `task_order()`. -/
def dumpState (db : TaskManagerDb) : Json :=
  Json.ofFields
    [("main_lock", Json.ofFields
        [("holder_agent", .string db.mainLock.holderAgent),
         ("holder_merge_task", .string db.mainLock.holderMergeTask),
         ("lock_token", .unsigned db.mainLock.lockToken)]),
     ("swarm_halted", .boolean db.swarmHalted),
     ("halted_by", .string (db.haltedBy.getD "")),
     ("halted_reason", .string (db.haltedReason.getD "")),
     ("tasks", .array (db.taskOrder.filterMap fun tid => (db.find tid).map TaskRecord.dump))]

theorem find?_main_lock (db : TaskManagerDb) :
    (dumpState db).find? "main_lock" = some (Json.ofFields
      [("holder_agent", .string db.mainLock.holderAgent),
       ("holder_merge_task", .string db.mainLock.holderMergeTask),
       ("lock_token", .unsigned db.mainLock.lockToken)]) := by
  simp [dumpState]

theorem find?_tasks (db : TaskManagerDb) :
    (dumpState db).find? "tasks"
      = some (.array (db.taskOrder.filterMap fun tid => (db.find tid).map TaskRecord.dump)) := by
  simp [dumpState]

end Tmgr
