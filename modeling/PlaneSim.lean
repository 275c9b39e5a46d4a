import PlaneSim.Lib.CInt
import PlaneSim.Lib.Scanf
import PlaneSim.Lib.Lts
import PlaneSim.Lib.Routes
import PlaneSim.Lib.Framing
import PlaneSim.Shmem
import PlaneSim.Fifo
import PlaneSim.Models
import PlaneSim.Floyd
import PlaneSim.Parser
import PlaneSim.FileText
import PlaneSim.MapFile
import PlaneSim.AirlineFile
import PlaneSim.Marshall
import PlaneSim.Unload
import PlaneSim.Destinations
import PlaneSim.Exchange
import PlaneSim.Visit
import PlaneSim.Airline
import PlaneSim.System
import PlaneSim.Lib.Update
import PlaneSim.Turn
import PlaneSim.Order
import PlaneSim.Progress
import PlaneSim.Setup
import PlaneSim.Service
import PlaneSim.Lib.Lock
import PlaneSim.Station
import PlaneSim.Barrier
import PlaneSim.PlaneSteps
import PlaneSim.ListenSteps
import PlaneSim.MapSteps
import PlaneSim.Simulation
import PlaneSim.Best
import PlaneSim.Requests
import PlaneSim.Report
import PlaneSim.Display
import PlaneSim.Outcome
import PlaneSim.Reporting
import PlaneSim.Deadlock
import PlaneSim.Receive
import PlaneSim.Lib.Ring
import PlaneSim.Lib.CondVar
import PlaneSim.Score
import PlaneSim.Vector
import PlaneSim.Interning
import PlaneSim.Pipe
import PlaneSim.MsgQueue
import PlaneSim.Mqueue
import PlaneSim.Lib.Ranking
import PlaneSim.Termination
import PlaneSim.Delivery
import PlaneSim.Capacity
import PlaneSim.Shutdown
import PlaneSim.Curses
import PlaneSim.Statuses
import PlaneSim.Screen
import PlaneSim.Lib.Layout
import PlaneSim.Wire
import PlaneSim.Transport
import PlaneSim.Carriage
import PlaneSim.Scenario
import PlaneSim.Socket
import PlaneSim.Startup
import PlaneSim.Creation
