import BitBridge.Bytes

/-!
# The configuration

The value classes of `lib/model`.  The default of a field is the value that the
default constructor of its class gives it.
-/

namespace BitBridge

structure ServiceNode where
  name : Bytes := []
  ip : Bytes := []
  port : UInt16 := 0
  weight : UInt16 := 1
  deriving DecidableEq, Repr

structure HealthCheckConfig where
  enabled : Bool := true
  intervalMs : UInt32 := 5000
  timeoutMs : UInt32 := 2000
  unhealthyThreshold : UInt32 := 3
  deriving DecidableEq, Repr

structure ConnectionConfig where
  maxPerService : UInt32 := 1024
  idleTimeoutMs : UInt32 := 30000
  connectTimeoutMs : UInt32 := 5000
  deriving DecidableEq, Repr

structure LoadBalancerConfig where
  name : Bytes := ascii "my-bit-bridge-lb"
  listenAddress : Bytes := ascii "0.0.0.0"
  listenPort : UInt16 := 8080
  routingAlgorithm : Bytes := ascii "p2c"
  services : List ServiceNode := []
  healthCheck : HealthCheckConfig := {}
  connection : ConnectionConfig := {}
  deriving DecidableEq, Repr

namespace LoadBalancerConfig

def addService (c : LoadBalancerConfig) (service : ServiceNode) : LoadBalancerConfig :=
  { c with services := c.services ++ [service] }

def clearServices (c : LoadBalancerConfig) : LoadBalancerConfig := { c with services := [] }

def removeService (c : LoadBalancerConfig) (index : Nat) : LoadBalancerConfig :=
  if index < c.services.length then { c with services := c.services.eraseIdx index } else c

end LoadBalancerConfig

end BitBridge
