import MarkovSim.Gallery.Corridor
import MarkovSim.Model.Variant
import MarkovSim.Session.Run
import MarkovSim.Table.Draft
import MarkovSim.Trace.Replay
import MarkovSim.Walk.Faltering
import MarkovSim.Proofs.Replay
import MarkovSim.Proofs.Session.Fault
import MarkovSim.Proofs.Session.Safety
import MarkovSim.Proofs.Session.Trajectory
import MarkovSim.Proofs.Assembly
import MarkovSim.Proofs.Draft
import MarkovSim.Proofs.Session.Finish
import MarkovSim.Proofs.Session.Names
import MarkovSim.Proofs.Trace
import MarkovSim.Proofs.Walk.Contract
import MarkovSim.Proofs.Session.Visibility
import MarkovSim.Proofs.Session.Classes
import MarkovSim.Proofs.Walk.Leaving
import MarkovSim.Proofs.Session.Settings
import MarkovSim.Proofs.Valuation.Stored
import MarkovSim.Proofs.Session.Omission
import MarkovSim.Proofs.Binary64.Overflow
import MarkovSim.Proofs.Trace.Unread
import MarkovSim.Proofs.Session.Rewards
import MarkovSim.Proofs.ChoiceLabels
import MarkovSim.Proofs.ChoiceLabels.Equality
import MarkovSim.Proofs.Session.Renewal
import MarkovSim.Proofs.StateLabels.History
import MarkovSim.Proofs.Session.Faltering
import MarkovSim.Proofs.Trace.Recording
import MarkovSim.Proofs.Gallery.Corridor
