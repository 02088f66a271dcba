import Qsf.Proof.Delivery
import Qsf.Proof.LifeCycle
import Qsf.Proof.Listener
import Qsf.Proof.Reentry
import Qsf.Proof.Handles
import Qsf.Proof.References
import Qsf.Proof.NodeRegistry
import Qsf.Proof.Mysql
import Qsf.Proof.Alignment
import Qsf.Proof.Routing
import Qsf.Proof.CryptoBounds
import Qsf.Proof.Buffers
import Qsf.Proof.Sweep
import Qsf.Proof.Serials
import Qsf.Proof.Absent
import Qsf.Proof.Teardown
import Qsf.Proof.NodeLife
import Qsf.Proof.LuaNet
import Qsf.Proof.Base64Encode
import Qsf.Proof.Base64Decode
import Qsf.Proof.MysqlIntegers
import Qsf.Proof.NodeRecord
import Qsf.Proof.LuaStack
import Qsf.Proof.LuaZmq
import Qsf.Proof.LuaZmqOptions
import Qsf.Proof.MysqlRuntime
import Qsf.Proof.MathExt
import Qsf.Proof.StringExt
import Qsf.Proof.TableCopy
import Qsf.Proof.TableClone
import Qsf.Proof.SessionTable
import Qsf.Proof.MessagePackRoundTrip
import Qsf.Proof.RedisSession
