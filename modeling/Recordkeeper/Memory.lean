import Recordkeeper.Cache.Locked
import Recordkeeper.Program
import Recordkeeper.Store.Table

set_option autoImplicit false

namespace Recordkeeper

structure Memory where
  table : Table := {}
  cache : LockedCache := .sound {}
  now : Moment

namespace Memory

def handler {α : Type} (E : EntityType α) : Handler Memory α where
  store c m :=
    ((m.table.answer E m.now.wall c).1, { m with table := (m.table.answer E m.now.wall c).2 })
  cache c m := ((m.cache.answer m.now.ticks c).1, { m with cache := (m.cache.answer m.now.ticks c).2 })

end Memory

end Recordkeeper
